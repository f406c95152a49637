import SqlReview.Proofs.Plan.MySql.Block

/-!
A block is read off its document: the tree has the steps of the block in their order, each table
once, and as many joins, sorts and other wrappers as the block has.
-/
namespace SqlReview.Plan.MySql

section Reading

def kinds : List Text :=
  ["ordering_operation", "grouping_operation", "duplicates_removal", "nested_loop", "table",
    "union_result"]

theorem readBlock_eq (v : Json) : readBlock v =
    match v.get? "ordering_operation" with
    | some ordering => (readBlock ordering).map (orderingNode ordering)
    | none =>
    match v.get? "grouping_operation" with
    | some grouping => (readBlock grouping).map (wrapper .aggregate "grouping_operation")
    | none =>
    match v.get? "duplicates_removal" with
    | some removal => (readBlock removal).map (wrapper .distinct "duplicates_removal")
    | none =>
    match v.get? "nested_loop" with
    | some (.array entries) =>
      match readTables entries with
      | .error e => .error e
      | .ok [] => .error .loopEmpty
      | .ok (first :: others) => .ok (joinTables first others)
    | some _ => .error .loopNotArray
    | none =>
    match v.get? "table" with
    | some table => readTable table
    | none =>
    match v.get? "union_result" with
    | some union =>
      match union.getItems? "query_specifications" with
      | some parts =>
        (readBlocks parts).map fun blocks =>
          { Node.new .setOperation "union_result" with children := blocks }
      | none => .ok (Node.new .setOperation "union_result")
    | none => .ok (Node.new .other "query_block") := by
  rw [readBlock]
  cases v.get? "ordering_operation" with
  | some ordering => rfl
  | none =>
  cases v.get? "grouping_operation" with
  | some grouping => rfl
  | none =>
  cases v.get? "duplicates_removal" with
  | some removal => rfl
  | none =>
  cases v.get? "nested_loop" with
  | some entries => cases entries <;> rfl
  | none =>
  cases v.get? "table" with
  | some table => rfl
  | none =>
  cases v.get? "union_result" with
  | some union =>
    simp only
    cases union.getItems? "query_specifications" <;> rfl
  | none => rfl

/-- Nothing else in a block is read. -/
theorem readBlock_congr {v w : Json} (same : ∀ kind ∈ kinds, v.get? kind = w.get? kind) :
    readBlock v = readBlock w := by
  simp only [kinds, List.forall_mem_cons] at same
  obtain ⟨ordering, grouping, distinct, loop, table, union, _⟩ := same
  rw [readBlock_eq v, readBlock_eq w, ordering, grouping, distinct, loop, table, union]

def readMaterialized (v : Json) : Except ShapeError (List Node) :=
  match (v.get? "materialized_from_subquery").bind (Json.get? "query_block") with
  | none => .ok []
  | some block => (readBlock block).map fun n =>
    [wrapper .materialize "materialized_from_subquery" n]

def readAttached (v : Json) : Except ShapeError (List Node) :=
  match v.getItems? "attached_subqueries" with
  | none => .ok []
  | some subqueries =>
    (readBlocks subqueries).map (List.map (wrapper .subquery "attached_subquery"))

theorem readTable_eq (v : Json) : readTable v =
    (readMaterialized v).bind fun materialized =>
      (readAttached v).map fun attached => tableNode v (materialized ++ attached) := by
  rw [readTable]
  unfold readMaterialized readAttached
  -- the subqueries are read after the block, so its fault comes first
  cases v.getItems? "attached_subqueries" with
  | none =>
    cases v.get? "materialized_from_subquery" with
    | none => rfl
    | some subquery =>
      simp only [Option.bind_some]
      cases subquery.get? "query_block" with
      | none => rfl
      | some block =>
        simp only
        cases readBlock block <;> rfl
  | some subqueries =>
    cases v.get? "materialized_from_subquery" with
    | none =>
      simp only
      cases readBlocks subqueries <;> rfl
    | some subquery =>
      simp only [Option.bind_some]
      cases subquery.get? "query_block" with
      | none =>
        simp only
        cases readBlocks subqueries <;> rfl
      | some block =>
        simp only
        cases readBlock block with
        | error e => rfl
        | ok content => cases readBlocks subqueries <;> rfl

theorem readTables_cons {entry table : Json} (h : entry.get? "table" = some table)
    (entries : List Json) : readTables (entry :: entries) =
      (readTable table).bind fun n => (readTables entries).map (n :: ·) := by
  rw [readTables]
  split
  · simp_all
  · rename_i found
    obtain rfl := Option.some.inj (h.symm.trans found)
    cases readTable table <;> rfl

theorem readBlocks_cons {entry block : Json} (h : entry.get? "query_block" = some block)
    (entries : List Json) : readBlocks (entry :: entries) =
      (readBlock block).bind fun n => (readBlocks entries).map (n :: ·) := by
  rw [readBlocks]
  split
  · simp_all
  · rename_i found
    obtain rfl := Option.some.inj (h.symm.trans found)
    cases readBlock block <;> rfl

theorem joinTables_eq_spine (first : Node) (others : List Node) :
    joinTables first others = spine first others.reverse := by
  unfold joinTables
  rw [List.foldl_eq_foldr_reverse]
  induction others.reverse with
  | nil => rfl
  | cons last before ih => rw [List.foldr_cons, ih]; rfl

theorem readBlock_loop {entries : List Json} {first : Node} {others : List Node}
    (h : readTables entries = .ok (first :: others)) :
    readBlock (.ofFields [("nested_loop", .array entries)]) =
      .ok (spine first others.reverse) := by
  refine (readBlock_eq _).trans ?_
  change (match readTables entries with
    | .error e => Except.error e
    | .ok [] => Except.error ShapeError.loopEmpty
    | .ok (first :: others) => Except.ok (joinTables first others)) = _
  rw [h, ← joinTables_eq_spine]

end Reading

section Encoding

theorem sorting_distinct (filesort : Bool) (b : Block) :
    ((("using_filesort".toList, Json.bool filesort) :: b.members).map Prod.fst).Nodup := by
  have one : ∀ kind ∈ kinds, ["using_filesort".toList, kind].Nodup := by decide
  cases b with
  | empty => exact List.nodup_singleton _
  | table t => exact one "table" (by decide)
  | loop first others => exact one "nested_loop" (by decide)
  | union parts => exact one "union_result" (by decide)
  | ordering filesort content => exact one "ordering_operation" (by decide)
  | grouping content => exact one "grouping_operation" (by decide)
  | distinct content => exact one "duplicates_removal" (by decide)

theorem readBlock_sorting (filesort : Bool) (b : Block) :
    readBlock (.ofFields (("using_filesort".toList, .bool filesort) :: b.members)) =
      readBlock (.ofFields b.members) := by
  refine readBlock_congr fun kind known => ?_
  have other : "using_filesort".toList ≠ kind := by
    rintro rfl
    exact absurd known (by decide +kernel)
  exact Json.get?_ofFields_of_ne (sorting_distinct filesort b) other

theorem orderingNode_sorting (filesort : Bool) (b : Block) (content : Node) :
    orderingNode (.ofFields (("using_filesort".toList, .bool filesort) :: b.members)) content =
      (Step.ordering filesort).above [content] := by
  unfold orderingNode Json.getFlag?
  rw [Json.get?_ofFields_of_mem (sorting_distinct filesort b) List.mem_cons_self]
  cases filesort <;> rfl

theorem Table.get?_document {key : Text} {value : Option Json} {t : Table}
    (h : (key, value) ∈ t.members) : t.document.get? key = value := by
  have keys : t.members.map Prod.fst = ["materialized_from_subquery", "attached_subqueries",
      "access_type", "table_name", "key", "rows_examined_per_scan", "using_index"] := by
    obtain ⟨access, _ | b, attached⟩ := t <;> rfl
  have distinct : (t.members.map Prod.fst).Nodup := by
    rw [keys]
    decide
  exact Json.get?_ofMembers distinct h

theorem tableNode_document (access : Access) (materialized : Option Block)
    (attached : List Block) (children : List Node) :
    tableNode (Table.mk access materialized attached).document children =
      (Step.table access).above children := by
  obtain ⟨type, name, key, rows, covering⟩ := access
  have found {k : Text} {value : Option Json}
      (h : (k, value) ∈ Access.members ⟨type, name, key, rows, covering⟩) :
      (Table.mk ⟨type, name, key, rows, covering⟩ materialized attached).document.get? k =
        value := by
    apply Table.get?_document
    cases materialized <;> exact .tail _ (.tail _ h)
  unfold tableNode Json.getText? Json.getFlag?
  rw [found (.head _), found (.tail _ (.head _)), found (.tail _ (.tail _ (.head _))),
    found (.tail _ (.tail _ (.tail _ (.head _)))),
    found (.tail _ (.tail _ (.tail _ (.tail _ (.head _)))))]
  cases name <;> cases key <;> cases rows <;> cases covering <;> rfl

mutual

theorem Block.read (b : Block) : readBlock (.ofFields b.members) = .ok b.node := by
  match b with
  | .empty => exact readBlock_eq _
  | .table t => exact (readBlock_eq _).trans t.read
  | .loop first others =>
    have tables : readTables (.ofFields [("table", first.document)] :: Table.entries others) =
        .ok (first.node :: Table.nodes others) := by
      rw [readTables_cons rfl, first.read, Table.readEach others]
      rfl
    exact readBlock_loop tables
  | .union parts =>
    refine (readBlock_eq _).trans ?_
    change (readBlocks (Block.entries parts)).map _ = _
    rw [Block.readEach parts]
    rfl
  | .ordering filesort content =>
    refine (readBlock_eq _).trans ?_
    change (readBlock (.ofFields (_ :: content.members))).map _ = _
    rw [readBlock_sorting, content.read]
    exact congrArg Except.ok (orderingNode_sorting filesort content content.node)
  | .grouping content =>
    refine (readBlock_eq _).trans ?_
    change (readBlock (.ofFields content.members)).map _ = _
    rw [content.read]
    rfl
  | .distinct content =>
    refine (readBlock_eq _).trans ?_
    change (readBlock (.ofFields content.members)).map _ = _
    rw [content.read]
    rfl

theorem Table.read (t : Table) : readTable t.document = .ok t.node := by
  match t with
  | .mk access materialized attached =>
    have below : readMaterialized (Table.mk access materialized attached).document = 
        .ok (match materialized with
          | none => []
          | some b => [Step.materialized.above [b.node]]) := by
      match materialized with
      | none => 
        unfold readMaterialized
        rw [Table.get?_document (.head _)]
        rfl
      | some b =>
        unfold readMaterialized
        rw [Table.get?_document (.head _)]
        change (readBlock (.ofFields b.members)).map _ = _
        rw [b.read]
        rfl
    have aside : readAttached (Table.mk access materialized attached).document =
        .ok ((Block.nodes attached).map fun n => Step.attached.above [n]) := by
      have found : (Table.mk access materialized attached).document.get? "attached_subqueries" =
          listed (Block.entries attached) := by
        apply Table.get?_document
        cases materialized <;> exact .tail _ (.head _)
      have each := Block.readEach attached
      unfold readAttached Json.getItems?
      rw [found]
      cases attached with
      | nil => rfl
      | cons b bs =>
        change (readBlocks (Block.entries (b :: bs))).map _ = _
        rw [each]
        rfl
    rw [readTable_eq, below, aside]
    simp only [Except.bind, Except.map, tableNode_document]
    cases materialized <;> rfl

theorem Table.readEach (ts : List Table) :
    readTables (Table.entries ts) = .ok (Table.nodes ts) := by
  match ts with
  | [] => rw [Table.entries, readTables]; rfl
  | t :: ts =>
    rw [Table.entries, readTables_cons rfl]
    change (readTable t.document).bind _ = _
    rw [t.read, Table.readEach ts]
    rfl

theorem Block.readEach (bs : List Block) :
    readBlocks (Block.entries bs) = .ok (Block.nodes bs) := by
  match bs with
  | [] => rw [Block.entries, readBlocks]; rfl
  | b :: bs =>
    rw [Block.entries, readBlocks_cons rfl, b.read, Block.readEach bs]
    rfl

end

end Encoding

end SqlReview.Plan.MySql
