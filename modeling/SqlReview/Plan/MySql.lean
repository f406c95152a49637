import SqlReview.Plan.Shape
import SqlReview.Plan.Tree

/-!
Plans of MySQL. A query block wraps its tables in ordering, grouping and duplicate removal, lists
joined tables flat, and nests other blocks under them. One bad join list spoils the whole plan.
-/
namespace SqlReview.Plan.MySql

def indexAccess : List Text :=
  (["index", "range", "ref", "eq_ref", "const", "system", "ref_or_null", "fulltext",
    "unique_subquery", "index_subquery", "index_merge"] : List String).map String.toList

/-- The work of an access type, in any letter case; `covering` says the index alone answers. -/
def operationOf (covering : Bool) (accessType : Text) : Operation :=
  let access := Text.lower accessType
  if access = "all" then .fullScan
  else if indexAccess.contains access then if covering then .indexOnlyScan else .indexScan
  else .other

def tableNode (v : Json) (children : List Node) : Node :=
  let accessType := (v.getText? "access_type").getD "ALL"
  { operation := operationOf ((v.getFlag? "using_index").getD false) accessType
    label := "table (" ++ accessType ++ ")"
    relation := v.getText? "table_name"
    index := v.getText? "key"
    rows := readRows? (v.get? "rows_examined_per_scan")
    children }

def wrapper (operation : Operation) (label : Text) (content : Node) : Node :=
  (Node.new operation label).withChild content

/-- Without a file sort the rows come in the order of an index. -/
def orderingNode (ordering : Json) (content : Node) : Node :=
  if (ordering.getFlag? "using_filesort").getD false then
    wrapper .sort "ordering_operation (filesort)" content
  else wrapper .other "ordering_operation" content

/-- Each table after the first joins all before it. -/
def joinTables (first : Node) (others : List Node) : Node :=
  others.foldl
    (fun joined table => ((Node.new .join "nested_loop").withChild joined).withChild table) first

theorem itemsWeight_of_getItems? {key : Text} {v : Json} {items : List Json}
    (h : v.getItems? key = some items) : 1 + Json.itemsWeight items < v.weight := by
  obtain ⟨w, hw, hp⟩ := Option.bind_eq_some_iff.1 h
  have := Json.weight_get?_lt hw
  cases w with
  | array xs =>
    cases hp
    simp only [Json.weight] at this
    omega
  | _ => simp [Json.items?] at hp

mutual

def readBlock (v : Json) : Except ShapeError Node :=
  match _h₁ : v.get? "ordering_operation" with
  | some ordering => (readBlock ordering).map (orderingNode ordering)
  | none =>
  match _h₂ : v.get? "grouping_operation" with
  | some grouping => (readBlock grouping).map (wrapper .aggregate "grouping_operation")
  | none =>
  match _h₃ : v.get? "duplicates_removal" with
  | some removal => (readBlock removal).map (wrapper .distinct "duplicates_removal")
  | none =>
  match _h₄ : v.get? "nested_loop" with
  | some (.array entries) =>
    match readTables entries with
    | .error e => .error e
    | .ok [] => .error .loopEmpty
    | .ok (first :: others) => .ok (joinTables first others)
  | some _ => .error .loopNotArray
  | none =>
  match _h₅ : v.get? "table" with
  | some table => readTable table
  | none =>
  match _h₆ : v.get? "union_result" with
  | some union =>
    match _h₇ : union.getItems? "query_specifications" with
    | some parts =>
      (readBlocks parts).map fun blocks =>
        { Node.new .setOperation "union_result" with children := blocks }
    | none => .ok (Node.new .setOperation "union_result")
  | none => .ok (Node.new .other "query_block")
termination_by v.weight
decreasing_by
  · exact Json.weight_get?_lt _h₁
  · exact Json.weight_get?_lt _h₂
  · exact Json.weight_get?_lt _h₃
  · have := Json.weight_get?_lt _h₄
    simp only [Json.weight] at this
    omega
  · exact Json.weight_get?_lt _h₅
  · have := Json.weight_get?_lt _h₆
    have := itemsWeight_of_getItems? _h₇
    omega

def readTable (v : Json) : Except ShapeError Node :=
  let derived : Except ShapeError (List Node) :=
    match _h₁ : v.get? "materialized_from_subquery" with
    | none => .ok []
    | some subquery =>
      match _h₂ : subquery.get? "query_block" with
      | none => .ok []
      | some block =>
        (readBlock block).map fun content =>
          [wrapper .materialize "materialized_from_subquery" content]
  match derived with
  | .error e => .error e
  | .ok derived =>
    match _h₃ : v.getItems? "attached_subqueries" with
    | none => .ok (tableNode v derived)
    | some subqueries =>
      (readBlocks subqueries).map fun blocks =>
        tableNode v (derived ++ blocks.map (wrapper .subquery "attached_subquery"))
termination_by v.weight
decreasing_by
  · have := Json.weight_get?_lt _h₁
    have := Json.weight_get?_lt _h₂
    omega
  · exact itemsWeight_of_getItems? _h₃

def readTables (entries : List Json) : Except ShapeError (List Node) :=
  match entries with
  | [] => .ok []
  | entry :: entries =>
    match _h : entry.get? "table" with
    | none => readTables entries
    | some table =>
      match readTable table with
      | .error e => .error e
      | .ok n => (readTables entries).map (n :: ·)
termination_by 1 + Json.itemsWeight entries
decreasing_by
  all_goals have := Json.weight_pos entry
  all_goals simp only [Json.itemsWeight]
  · omega
  · have := Json.weight_get?_lt _h
    omega
  · omega

def readBlocks (entries : List Json) : Except ShapeError (List Node) :=
  match entries with
  | [] => .ok []
  | entry :: entries =>
    match _h : entry.get? "query_block" with
    | none => readBlocks entries
    | some block =>
      match readBlock block with
      | .error e => .error e
      | .ok n => (readBlocks entries).map (n :: ·)
termination_by 1 + Json.itemsWeight entries
decreasing_by
  all_goals have := Json.weight_pos entry
  all_goals simp only [Json.itemsWeight]
  · omega
  · have := Json.weight_get?_lt _h
    omega
  · omega

end

def wrapping : Wrapping := ⟨"query_block", "EXPLAIN", .noQueryBlock⟩

def read (v : Json) : Except ShapeError Tree :=
  (wrapping.unwrap v).bind fun block => (readBlock block).map fun root => ⟨.mySql, [root]⟩

end SqlReview.Plan.MySql
