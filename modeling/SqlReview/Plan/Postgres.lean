import SqlReview.Plan.Shape
import SqlReview.Plan.Tree

/-!
Plans of PostgreSQL. A node and all nodes below it have to name their type, or there is no plan at
all; whatever else a node says is read if it can be and passed over if not.
-/
namespace SqlReview.Plan.Postgres

def nodeTypes : List (Operation × List String) :=
  [(.fullScan, ["Seq Scan", "Parallel Seq Scan"]),
    (.indexScan, ["Index Scan", "Bitmap Index Scan", "Bitmap Heap Scan"]),
    (.indexOnlyScan, ["Index Only Scan"]),
    (.join, ["Nested Loop", "Hash Join", "Merge Join"]),
    (.sort, ["Sort", "Incremental Sort"]),
    (.aggregate, ["Aggregate", "GroupAggregate", "HashAggregate", "WindowAgg", "Group"]),
    (.distinct, ["Unique"]),
    (.subquery, ["Subquery Scan", "CTE Scan", "SubPlan"]),
    (.materialize, ["Materialize", "Memoize"]),
    (.setOperation, ["Append", "Merge Append", "SetOp", "Recursive Union"]),
    (.limit, ["Limit"])]

def operationOf (nodeType : Text) : Operation :=
  ((nodeTypes.find? fun entry => entry.2.any (·.toList = nodeType)).map (·.1)).getD .other

mutual

def readNode (v : Json) : Except ShapeError Node :=
  match v.getText? "Node Type" with
  | none => .error .noNodeType
  | some nodeType =>
    match _h : v.getItems? "Plans" with
    | none => .ok (made nodeType [])
    | some plans => (readNodes plans).map (made nodeType)
termination_by v.weight
decreasing_by
  obtain ⟨w, hw, hp⟩ := Option.bind_eq_some_iff.1 _h
  have := Json.weight_get?_lt hw
  cases w with
  | array items =>
    cases hp
    simp only [Json.weight] at this
    omega
  | _ => simp [Json.items?] at hp
where
  made (nodeType : Text) (children : List Node) : Node :=
    { operation := operationOf nodeType
      label := nodeType
      relation := v.getText? "Relation Name"
      index := v.getText? "Index Name"
      rows := readRows? (v.get? "Plan Rows")
      children }

def readNodes (vs : List Json) : Except ShapeError (List Node) :=
  match vs with
  | [] => .ok []
  | v :: vs =>
    match readNode v with
    | .error e => .error e
    | .ok n => (readNodes vs).map (n :: ·)
termination_by 1 + Json.itemsWeight vs
decreasing_by
  · simp only [Json.itemsWeight]
    omega
  · have := Json.weight_pos v
    simp only [Json.itemsWeight]
    omega

end

def wrapping : Wrapping := ⟨"Plan", "QUERY PLAN", .noPlan⟩

def read (v : Json) : Except ShapeError Tree :=
  (wrapping.unwrap v).bind fun plan => (readNode plan).map fun root => ⟨.postgres, [root]⟩

end SqlReview.Plan.Postgres
