import SqlReview.Text.Basic

/-!
Entries under texts. Where no two have one key, an entry is what is found under its key.
-/
namespace SqlReview

variable {α : Type} {key : Text} {value : α} {entries : List (Text × α)}

theorem find?_key_eq_none (h : key ∉ entries.map Prod.fst) :
    entries.find? (fun entry => entry.1 = key) = none := by
  rw [List.find?_eq_none]
  intro entry he same
  rw [← of_decide_eq_true same] at h
  exact h (List.mem_map_of_mem he)

theorem find?_key_eq_some_iff (distinct : (entries.map Prod.fst).Nodup) :
    (entries.find? fun entry => entry.1 = key).map (·.2) = some value ↔ (key, value) ∈ entries := by
  induction entries with
  | nil => simp
  | cons entry entries ih =>
    obtain ⟨k, v⟩ := entry
    rw [List.map_cons, List.nodup_cons] at distinct
    by_cases h : k = key
    · subst h
      have alone : (k, value) ∉ entries := by
        intro m
        have known : k ∈ entries.map Prod.fst := List.mem_map_of_mem m
        exact distinct.1 known
      simp [alone, eq_comm]
    · have other : (key, value) ≠ (k, v) := fun e => h (congrArg Prod.fst e).symm
      rw [List.find?_cons_of_neg (by simpa using h), ih distinct.2, List.mem_cons,
        or_iff_right other]

end SqlReview
