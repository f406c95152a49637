import SqlReview.Json.Weight
import SqlReview.Plan.Tree

/-!
Plans as documents. A node has all its members written, null for one that it does not have; reading
takes a missing one for null.
-/
namespace SqlReview.Plan

def Operation.toJson (operation : Operation) : Json := .string operation.name

def Operation.read? {V : Type} [Document V] (v : V) : Option Operation :=
  Record.choice? all name v

mutual

def Node.toJson : Node → Json
  | ⟨operation, label, relation, index, rows, children⟩ =>
    .ofFields [("operation", operation.toJson), ("label", .string label),
      ("relation", .ofOption .string relation), ("index_name", .ofOption .string index),
      ("rows", .ofOption .ofNat rows), ("children", .array (Node.listToJson children))]

def Node.listToJson : List Node → List Json
  | [] => []
  | n :: ns => n.toJson :: Node.listToJson ns

end

theorem weight_member_lt {count place : Nat} {name : Text} {v w : Json} {m : Record.Members Json}
    (hm : Record.members? count v = some m) (h : m.get? name place = some w) :
    w.weight < v.weight := by
  cases v with
  | object fields =>
    cases hm
    simp only [Record.Members.get?, Option.map_eq_some_iff] at h
    obtain ⟨⟨k, u⟩, h, rfl⟩ := h
    exact Json.weight_lt_of_field (List.mem_of_find?_eq_some h)
  | array items =>
    simp only [Record.members?, Document.fields?, Json.fields?, Document.items?, Json.items?] at hm
    split at hm
    · cases hm
      exact Json.weight_lt_of_mem (List.mem_of_getElem? h)
    · contradiction
  | _ => simp [Record.members?, Document.fields?, Json.fields?, Document.items?, Json.items?] at hm

mutual

def Node.ofJson? (v : Json) : Option Node :=
  match _hm : Record.members? 6 v with
  | none => none
  | some m =>
    match _hc : m.get? "children" 5 with
    | some (.array items) => do
      let operation ← m.required "operation" 0 Operation.read?
      let label ← m.required "label" 1 Json.text?
      let relation ← m.optional "relation" 2 Json.text?
      let index ← m.optional "index_name" 3 Json.text?
      let rows ← m.optional "rows" 4 Json.natural?
      let children ← Node.listOfJson? items
      some { operation, label, relation, index, rows, children }
    | _ => none
termination_by v.weight
decreasing_by
  have := weight_member_lt _hm _hc
  simp only [Json.weight] at this
  omega

def Node.listOfJson? (vs : List Json) : Option (List Node) :=
  match vs with
  | [] => some []
  | v :: vs => do
    let n ← Node.ofJson? v
    let ns ← Node.listOfJson? vs
    some (n :: ns)
termination_by 1 + Json.itemsWeight vs
decreasing_by
  all_goals have := Json.weight_pos v
  all_goals simp only [Json.itemsWeight]
  all_goals omega

end

def Tree.toJson (t : Tree) : Json :=
  .ofFields [("database", t.database.toJson), ("roots", .array (Node.listToJson t.roots))]

def Tree.ofJson? (v : Json) : Option Tree := do
  let m ← Record.members? 2 v
  let database ← m.required "database" 0 Database.read?
  let roots ← m.required "roots" 1 fun roots => (Json.items? roots).bind Node.listOfJson?
  some { database, roots }

end SqlReview.Plan
