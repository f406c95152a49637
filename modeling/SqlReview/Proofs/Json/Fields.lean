import Mathlib.Data.List.Nodup
import SqlReview.Json.Value
import SqlReview.Proofs.Text.Entries

/-!
The members of an object that is written field by field. Whatever order the fields are kept in, a
member is looked up by its key.
-/
namespace SqlReview.Json

variable {key k : Text} {v : Json} {value : Option Json} {fields : List (Text × Json)}
  {members : List (Text × Option Json)}

theorem find?_put (fields : Fields) : (fields.put k v).find? (fun entry => entry.1 = key) =
    if k = key then some (k, v) else fields.find? fun entry => entry.1 = key := by
  induction fields with
  | nil =>
    rw [Fields.put, List.find?_cons]
    split <;> simp_all
  | cons entry fields ih =>
    rw [Fields.put]
    split
    · rename_i same
      rw [List.find?_cons, List.find?_cons, ← same]
      split <;> simp_all
    · split
      · rw [List.find?_cons]
        split <;> simp_all
      · rename_i other _
        rw [List.find?_cons, List.find?_cons, ih]
        split <;> simp_all

theorem get?_ofFields (distinct : (fields.map Prod.fst).Nodup) :
    (ofFields fields).get? key = (fields.find? fun entry => entry.1 = key).map (·.2) := by
  have all (kept : Fields) :
      (fields.foldl (fun all entry => all.put entry.1 entry.2) kept).find?
        (fun entry => entry.1 = key) =
      (fields.find? fun entry => entry.1 = key).or (kept.find? fun entry => entry.1 = key) := by
    induction fields generalizing kept with
    | nil => rfl
    | cons entry fields ih =>
      rw [List.map_cons, List.nodup_cons] at distinct
      rw [List.foldl_cons, ih distinct.2, find?_put, List.find?_cons]
      by_cases here : entry.1 = key
      · obtain ⟨k, v⟩ := entry
        cases here
        simp [find?_key_eq_none distinct.1]
      · simp [here]
  have whole := all []
  unfold ofFields get?
  simp only [whole, List.find?_nil, Option.or_none]

theorem get?_ofFields_of_mem (distinct : (fields.map Prod.fst).Nodup) (h : (key, v) ∈ fields) :
    (ofFields fields).get? key = some v := by
  rw [get?_ofFields distinct, find?_key_eq_some_iff distinct]
  exact h

theorem get?_ofFields_of_ne (distinct : (((k, v) :: fields).map Prod.fst).Nodup)
    (other : k ≠ key) : (ofFields ((k, v) :: fields)).get? key = (ofFields fields).get? key := by
  rw [get?_ofFields distinct, get?_ofFields (List.nodup_cons.1 distinct).2,
    List.find?_cons_of_neg (by simpa using other)]

def ofMembers (members : List (Text × Option Json)) : Json :=
  ofFields (members.filterMap fun member => member.2.map fun v => (member.1, v))

theorem get?_ofMembers (distinct : (members.map Prod.fst).Nodup) (h : (key, value) ∈ members) :
    (ofMembers members).get? key = value := by
  have kept : ((members.filterMap fun member => member.2.map fun v => (member.1, v)).map
      Prod.fst).Sublist (members.map Prod.fst) := by
    clear distinct h
    induction members with
    | nil => exact List.Sublist.refl _
    | cons member members ih =>
      obtain ⟨k, v⟩ := member
      cases v with
      | none => exact ih.cons k
      | some v => exact ih.cons_cons k
  unfold ofMembers
  cases value with
  | some v =>
    exact get?_ofFields_of_mem (distinct.sublist kept) (List.mem_filterMap.2 ⟨_, h, rfl⟩)
  | none =>
    rw [get?_ofFields (distinct.sublist kept), find?_key_eq_none, Option.map_none]
    intro there
    obtain ⟨_, hv, rfl⟩ := List.mem_map.1 there
    obtain ⟨member, hm, e⟩ := List.mem_filterMap.1 hv
    obtain ⟨v, present, rfl⟩ := Option.map_eq_some_iff.1 e
    rw [← List.inj_on_of_nodup_map distinct h hm rfl] at present
    cases present

end SqlReview.Json
