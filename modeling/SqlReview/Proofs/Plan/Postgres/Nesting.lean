import Mathlib.Logic.Relation
import SqlReview.Plan.Normal
import SqlReview.Proofs.Plan.Preorder

/-!
Plans of PostgreSQL as the nesting of their documents. A plan is read if every document in it names
its type, and its tree is then the nesting itself; otherwise there is no tree at all.
-/
namespace SqlReview.Plan.Postgres

/-- What is right below a document; a list of plans that is no array counts as none. -/
def plansOf (v : Json) : List Json := (v.getItems? "Plans").getD []

theorem itemsWeight_plansOf (v : Json) : Json.itemsWeight (plansOf v) < v.weight := by
  unfold plansOf
  cases h : v.getItems? "Plans" with
  | none => exact Json.weight_pos v
  | some items =>
    have := MySql.itemsWeight_of_getItems? h
    simp only [Option.getD_some]
    omega

def nesting (vs : List Json) : Forest Json :=
  match vs with
  | [] => .empty
  | v :: vs => .tree v (nesting (plansOf v)) (nesting vs)
termination_by Json.itemsWeight vs
decreasing_by
  · have := itemsWeight_plansOf v
    simp only [Json.itemsWeight]
    omega
  · have := Json.weight_pos v
    simp only [Json.itemsWeight]
    omega

def Holds : Json → Json → Prop := Relation.ReflTransGen fun v w => w ∈ plansOf v

theorem mem_labels_nesting {vs : List Json} {w : Json} :
    w ∈ (nesting vs).labels ↔ ∃ v ∈ vs, Holds v w := by
  fun_induction nesting vs with
  | case1 => simp [Forest.labels]
  | case2 v vs ihb ihr =>
    simp only [Forest.labels, List.mem_cons, List.mem_append, ihb, ihr, exists_eq_or_imp]
    have here : Holds v w ↔ w = v ∨ ∃ u ∈ plansOf v, Holds u w := by
      unfold Holds
      rw [Relation.ReflTransGen.cases_head_iff, eq_comm]
    rw [here, or_assoc]

/-- The members that a document is read by, apart from the plans nested in it. -/
structure Told where
  type : Option Json
  relation : Option Json
  index : Option Json
  rows : Option Json

def told (v : Json) : Told :=
  ⟨v.get? "Node Type", v.get? "Relation Name", v.get? "Index Name", v.get? "Plan Rows"⟩

namespace Told

/-- The type is named, by a string. -/
def HasType (t : Told) : Prop := ∃ name, t.type = some (.string name)

def node (t : Told) : Node :=
  let name := (t.type.bind Json.text?).getD []
  { operation := operationOf name
    label := name
    relation := t.relation.bind Json.text?
    index := t.index.bind Json.text?
    rows := readRows? t.rows
    children := [] }

theorem node_children (t : Told) : t.node.children = [] := rfl

theorem hasType_iff {t : Told} : t.HasType ↔ ∃ name, t.type.bind Json.text? = some name := by
  constructor
  · rintro ⟨name, h⟩
    exact ⟨name, by rw [h]; rfl⟩
  · rintro ⟨name, h⟩
    obtain ⟨v, hv, h⟩ := Option.bind_eq_some_iff.1 h
    cases v with
    | string s => exact ⟨s, hv⟩
    | _ => cases h

end Told

section Reading

variable {v : Json} {vs : List Json}

theorem readNode_eq (v : Json) : readNode v =
    match v.getText? "Node Type" with
    | none => .error .noNodeType
    | some _ => (readNodes (plansOf v)).map fun children => { (told v).node with children } := by
  rw [readNode]
  cases h : v.getText? "Node Type" with
  | none => rfl
  | some name =>
    have made (children : List Node) :
        readNode.made v name children = { (told v).node with children } := by
      have type : ((told v).type.bind Json.text?).getD [] = name := by
        change (v.getText? "Node Type").getD [] = name
        rw [h]
        rfl
      simp only [readNode.made, Told.node, type]
      rfl
    simp only
    unfold plansOf
    split
    · rename_i none
      rw [none, made, Option.getD_none, readNodes]
      rfl
    · rename_i plans some
      rw [some, Option.getD_some, funext made]

theorem readNodes_cons (v : Json) (vs : List Json) : readNodes (v :: vs) =
    (readNode v).bind fun n => (readNodes vs).map (n :: ·) := by
  rw [readNodes]
  cases readNode v <;> rfl

theorem readNode_of_hasType (h : (told v).HasType) : readNode v =
    (readNodes (plansOf v)).map fun children => { (told v).node with children } := by
  obtain ⟨name, h⟩ := Told.hasType_iff.1 h
  have text : v.getText? "Node Type" = some name := h
  rw [readNode_eq, text]

theorem readNode_of_not_hasType (h : ¬ (told v).HasType) : readNode v = .error .noNodeType := by
  have text : v.getText? "Node Type" = none := by
    rw [Option.eq_none_iff_forall_ne_some]
    intro name e
    exact h (Told.hasType_iff.2 ⟨name, e⟩)
  rw [readNode_eq, text]

theorem readNodes_of_hasType (h : ∀ w ∈ (nesting vs).labels, (told w).HasType) :
    readNodes vs = .ok (((nesting vs).map told).nodes Told.node) := by
  fun_induction nesting vs with
  | case1 => rw [readNodes]; rfl
  | case2 v vs ihb ihr =>
    rw [Forest.labels, List.forall_mem_cons, List.forall_mem_append] at h
    obtain ⟨here, below, rest⟩ := h
    rw [readNodes_cons, readNode_of_hasType here, ihb below, ihr rest]
    rfl

theorem readNodes_of_not_hasType (h : ¬ ∀ w ∈ (nesting vs).labels, (told w).HasType) :
    readNodes vs = .error .noNodeType := by
  fun_induction nesting vs with
  | case1 => exact absurd (List.forall_mem_nil _) h
  | case2 v vs ihb ihr =>
    rw [Forest.labels, List.forall_mem_cons, List.forall_mem_append] at h
    rw [readNodes_cons]
    by_cases here : (told v).HasType
    · rw [readNode_of_hasType here]
      by_cases below : ∀ w ∈ (nesting (plansOf v)).labels, (told w).HasType
      · rw [readNodes_of_hasType below, ihr fun rest => h ⟨here, below, rest⟩]
        rfl
      · rw [ihb below]
        rfl
    · rw [readNode_of_not_hasType here]
      rfl

theorem readNodes_singleton (v : Json) : readNodes [v] = (readNode v).map fun n => [n] := by
  rw [readNodes_cons, readNodes]
  cases readNode v <;> rfl

/-- Only what the documents tell of themselves is read. -/
theorem readNodes_congr {ws : List Json} (same : (nesting ws).map told = (nesting vs).map told) :
    readNodes ws = readNodes vs := by
  have typed (us : List Json) : (∀ u ∈ (nesting us).labels, (told u).HasType) ↔
      ∀ t ∈ ((nesting us).map told).labels, t.HasType := by
    rw [Forest.labels_map, List.forall_mem_map]
  by_cases h : ∀ w ∈ (nesting ws).labels, (told w).HasType
  · have h' : ∀ v ∈ (nesting vs).labels, (told v).HasType := by
      rw [typed] at h ⊢
      exact same ▸ h
    rw [readNodes_of_hasType h, readNodes_of_hasType h', same]
  · have h' : ¬ ∀ v ∈ (nesting vs).labels, (told v).HasType := by
      rw [typed] at h ⊢
      exact same ▸ h
    rw [readNodes_of_not_hasType h, readNodes_of_not_hasType h']

theorem normalize_of_unwrap {plan : Json} (located : wrapping.unwrap v = .ok plan) :
    normalize .postgres v = (readNodes [plan]).map fun roots => ⟨.postgres, roots⟩ := by
  have whole : normalize .postgres v =
      (readNode plan).map fun root => (⟨.postgres, [root]⟩ : Tree) := by
    rw [normalize, read, located]
    rfl
  rw [whole, readNodes_singleton]
  cases readNode plan <;> rfl

variable {plan : Json}

theorem mem_labels_nesting_singleton {w : Json} : w ∈ (nesting [plan]).labels ↔ Holds plan w := by
  rw [mem_labels_nesting]
  simp

theorem normalize_of_hasType (located : wrapping.unwrap v = .ok plan)
    (h : ∀ w, Holds plan w → (told w).HasType) : normalize .postgres v =
      .ok ⟨.postgres, ((nesting [plan]).map told).nodes Told.node⟩ := by
  rw [normalize_of_unwrap located,
    readNodes_of_hasType fun w hw => h w (mem_labels_nesting_singleton.1 hw)]
  rfl

theorem normalize_of_not_hasType (located : wrapping.unwrap v = .ok plan)
    (h : ∃ w, Holds plan w ∧ ¬ (told w).HasType) : normalize .postgres v = .error .noNodeType := by
  obtain ⟨w, hw, no⟩ := h
  have missing : ¬ ∀ w ∈ (nesting [plan]).labels, (told w).HasType :=
    fun all => no (all w (mem_labels_nesting_singleton.2 hw))
  rw [normalize_of_unwrap located, readNodes_of_not_hasType missing]
  rfl

theorem label_of_hasType {w : Json} (h : (told w).HasType) :
    some (Json.string (told w).node.label) = w.get? "Node Type" := by
  obtain ⟨name, h⟩ := h
  have type : w.get? "Node Type" = some (.string name) := h
  simp only [Told.node, told, type]
  rfl

end Reading

/-- A plan is read if all documents in it name their types, and only then. Its tree has the shape of
their nesting, each node tells what its own document does, and no other member counts. -/
theorem normalize_located {v plan : Json} (located : wrapping.unwrap v = .ok plan) :
    ((∃ tree, normalize .postgres v = .ok tree) ↔ ∀ w, Holds plan w → (told w).HasType) ∧
      (∀ tree, normalize .postgres v = .ok tree →
        tree = ⟨.postgres, ((nesting [plan]).map told).nodes Told.node⟩ ∧
        tree.roots.length = 1 ∧
        (tree.nodes.map fun n => some (Json.string n.label)) =
          (nesting [plan]).labels.map (Json.get? "Node Type") ∧
        tree.nodes.map Node.bare = (nesting [plan]).labels.map fun w => (told w).node) ∧
      ((∃ w, Holds plan w ∧ ¬ (told w).HasType) →
        normalize .postgres v = .error .noNodeType) ∧
      ∀ v' plan', wrapping.unwrap v' = .ok plan' →
        (nesting [plan']).map told = (nesting [plan]).map told →
        normalize .postgres v' = normalize .postgres v := by
  have typed {tree : Tree} (h : normalize .postgres v = .ok tree) :
      ∀ w, Holds plan w → (told w).HasType := by
    intro w hw
    apply Classical.byContradiction
    intro no
    rw [normalize_of_not_hasType located ⟨w, hw, no⟩] at h
    cases h
  refine ⟨⟨fun ⟨_, h⟩ => typed h, fun h => ⟨_, normalize_of_hasType located h⟩⟩, ?_,
    normalize_of_not_hasType located, ?_⟩
  · intro tree h
    have types := typed h
    rw [normalize_of_hasType located types] at h
    obtain rfl := Except.ok.inj h
    have bare : (Tree.nodes ⟨.postgres, ((nesting [plan]).map told).nodes Told.node⟩).map
        Node.bare = (nesting [plan]).labels.map fun w => (told w).node := by
      rw [Tree.nodes, Node.visit_eq_preorderAll, Forest.map_bare_preorderAll Told.node_children,
        Forest.labels_map, List.map_map]
      rfl
    refine ⟨rfl, ?_, ?_, bare⟩
    · rw [nesting, nesting]
      rfl
    · have labels := congrArg (List.map fun n : Node => some (Json.string n.label)) bare
      rw [List.map_map, List.map_map] at labels
      refine labels.trans (List.map_congr_left fun w hw => ?_)
      exact label_of_hasType (types w (mem_labels_nesting_singleton.1 hw))
  · intro v' plan' located' same
    rw [normalize_of_unwrap located', normalize_of_unwrap located, readNodes_congr same]

def hashJoin : Json :=
  .ofFields [("Node Type", .string "Hash Join"), ("Join Type", .string "Inner"),
    ("Plans", .array [
      .ofFields [("Node Type", .string "Seq Scan"), ("Relation Name", .string "users"),
        ("Plan Rows", .ofNat 40)],
      .ofFields [("Node Type", .string "Hash"), ("Plans", .array [
        .ofFields [("Node Type", .string "Index Scan"), ("Index Name", .string "orders_pkey"),
          ("Plans", .null)]])]])]

theorem normalize_hashJoin :
    wrapping.unwrap (.array [.ofFields [("Plan", hashJoin)]]) = .ok hashJoin ∧
      ∃ tree, normalize .postgres (.array [.ofFields [("Plan", hashJoin)]]) = .ok tree ∧
        tree.roots.length = 1 ∧
        tree.roots.map (fun root => root.children.map Node.relation) =
          [[some "users".toList, none]] := by
  have located : wrapping.unwrap (.array [.ofFields [("Plan", hashJoin)]]) = .ok hashJoin := by
    have object : Json.ofFields [("Plan", hashJoin)] = .object [("Plan", hashJoin)] := rfl
    rw [object, Wrapping.unwrap, Wrapping.unwrap]
    rfl
  obtain ⟨scan, hash, rows, join, bare, built, last, scan_told, hash_told, rows_told⟩ :
      ∃ scan hash rows, plansOf hashJoin = [scan, hash] ∧ plansOf scan = [] ∧
        plansOf hash = [rows] ∧ plansOf rows = [] ∧
        told scan = ⟨some (.string "Seq Scan"), some (.string "users"), none, some (.ofNat 40)⟩ ∧
        told hash = ⟨some (.string "Hash"), none, none, none⟩ ∧
        told rows = ⟨some (.string "Index Scan"), none, some (.string "orders_pkey"), none⟩ :=
    ⟨_, _, _, rfl, rfl, rfl, rfl, rfl, rfl, rfl⟩
  have nested : (nesting [hashJoin]).map told =
      .tree ⟨some (.string "Hash Join"), none, none, none⟩
        (.tree ⟨some (.string "Seq Scan"), some (.string "users"), none, some (.ofNat 40)⟩ .empty
          (.tree ⟨some (.string "Hash"), none, none, none⟩
            (.tree ⟨some (.string "Index Scan"), none, some (.string "orders_pkey"), none⟩
              .empty .empty) .empty)) .empty := by
    simp only [nesting, join, bare, built, last, Forest.map, scan_told, hash_told, rows_told]
    rfl
  obtain ⟨read_iff, tells, _, _⟩ := normalize_located located
  have typed : ∀ w, Holds hashJoin w → (told w).HasType := by
    have types : ∀ t ∈ ((nesting [hashJoin]).map told).labels, t.HasType := by
      rw [nested]
      simp [Forest.labels, Told.HasType]
    intro w hw
    rw [Forest.labels_map, List.forall_mem_map] at types
    exact types w (mem_labels_nesting_singleton.2 hw)
  obtain ⟨tree, read⟩ := read_iff.2 typed
  obtain ⟨shape, single, _, _⟩ := tells tree read
  refine ⟨located, tree, read, single, ?_⟩
  rw [shape, nested]
  rfl

end SqlReview.Plan.Postgres
