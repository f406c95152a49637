import Mathlib.Logic.Relation
import SqlReview.Plan.Normal

/-!
The wrappings that drivers put around a plan. However many there are, the plan is read off a wrapped
value as off the value itself, and looking through them ends, since each goes to a lighter value.
-/
namespace SqlReview.Plan

/-- How plans of a database are delivered. Those of SQLite are rows and come as they are. -/
def wrapping? : Database → Option Wrapping
  | .postgres => some Postgres.wrapping
  | .mySql => some MySql.wrapping
  | .sqlite => none

namespace Wrapping

inductive Wraps (w : Wrapping) : Json → Json → Prop
  /-- A string that spells the value, with blanks around. -/
  | text {s : Text} {v : Json} (spelled : Json.parse? (Text.trim s) = some v) :
      Wraps w (.string s) v
  /-- A result column, beside which the member does not stand. -/
  | column {fields : Json.Fields} {v : Json} (bare : (Json.object fields).get? w.member = none)
      (held : (Json.object fields).get? w.column = some v) : Wraps w (.object fields) v
  /-- The first of some rows. -/
  | row (v : Json) (others : List Json) : Wraps w (.array (v :: others)) v

def Wrapped (w : Wrapping) : Json → Json → Prop := Relation.ReflTransGen w.Wraps

/-- A value that is looked into no further, and what comes of it. -/
inductive Ends (w : Wrapping) : Json → Except ShapeError Json → Prop
  | found {v plan : Json} (held : v.get? w.member = some plan) : Ends w v (.ok plan)
  | notJson {s : Text} (unspelled : Json.parse? (Text.trim s) = none) :
      Ends w (.string s) (.error (.notJson (s := Text.trim s)))
  | absent {v : Json} (noText : v.text? = none) (noMember : v.get? w.member = none)
      (noColumn : v.get? w.column = none) (noRow : v.items?.bind List.head? = none) :
      Ends w v (.error w.absent)

/-- The values that are looked into one after another below a value, and what comes of the last. -/
inductive Looks (w : Wrapping) : Json → List Json → Except ShapeError Json → Prop
  | here {v : Json} {r : Except ShapeError Json} (ends : Ends w v r) : Looks w v [] r
  | into {outer inner : Json} {later : List Json} {r : Except ShapeError Json}
      (wraps : Wraps w outer inner) (below : Looks w inner later r) :
      Looks w outer (inner :: later) r

section Unwrapping

variable {w : Wrapping} {v plan outer inner inner' : Json} {fields : Json.Fields} {s : Text}
  {r r' : Except ShapeError Json}

theorem unwrap_of_member (held : (Json.object fields).get? w.member = some plan) :
    w.unwrap (.object fields) = .ok plan := by
  rw [unwrap, held]

theorem unwrap_of_column (bare : (Json.object fields).get? w.member = none)
    (held : (Json.object fields).get? w.column = some v) :
    w.unwrap (.object fields) = w.unwrap v := by
  rw [unwrap, bare]
  simp only
  split
  · rename_i found
    rw [Option.some.inj (held.symm.trans found)]
  · simp_all

theorem unwrap_of_none (bare : (Json.object fields).get? w.member = none)
    (none_ : (Json.object fields).get? w.column = none) :
    w.unwrap (.object fields) = .error w.absent := by
  rw [unwrap, bare]
  simp only
  split
  · simp_all
  · rfl

theorem unwrap_of_text (spelled : Json.parse? (Text.trim s) = some v) :
    w.unwrap (.string s) = w.unwrap v := by
  rw [unwrap]
  split
  · rename_i found
    rw [Option.some.inj (spelled.symm.trans found)]
  · simp_all

theorem unwrap_of_row (v : Json) (others : List Json) :
    w.unwrap (.array (v :: others)) = w.unwrap v := by
  rw [unwrap]

theorem unwrap_of_wraps (wraps : w.Wraps outer inner) : w.unwrap outer = w.unwrap inner := by
  cases wraps with
  | text spelled => exact unwrap_of_text spelled
  | column bare held => exact unwrap_of_column bare held
  | row _ others => exact unwrap_of_row inner others

theorem unwrap_of_wrapped (wrapped : w.Wrapped outer v) : w.unwrap outer = w.unwrap v := by
  induction wrapped using Relation.ReflTransGen.head_induction_on with
  | refl => rfl
  | head wraps _ ih => exact (unwrap_of_wraps wraps).trans ih

theorem unwrap_of_ends (ends : w.Ends v r) : w.unwrap v = r := by
  cases ends with
  | found held =>
    cases v with
    | object fields => exact unwrap_of_member held
    | _ => cases held
  | notJson unspelled =>
    rw [unwrap]
    split
    · simp_all
    · rfl
  | absent noText noMember noColumn noRow =>
    cases v with
    | string s => cases noText
    | object fields => exact unwrap_of_none noMember noColumn
    | array items =>
      cases items with
      | nil => simp [unwrap]
      | cons v others => cases noRow
    | _ => simp [unwrap]

theorem Wraps.unique (h : w.Wraps outer inner) (h' : w.Wraps outer inner') : inner = inner' := by
  cases h with
  | text spelled =>
    cases h' with
    | text spelled' => exact Option.some.inj (spelled.symm.trans spelled')
  | column _ held =>
    cases h' with
    | column _ held' => exact Option.some.inj (held.symm.trans held')
  | row =>
    cases h' with
    | row => rfl

theorem Wraps.not_ends (wraps : w.Wraps outer inner) : ¬ w.Ends outer r := by
  intro ends
  cases wraps with
  | text spelled =>
    cases ends with
    | found held => cases held
    | notJson unspelled => simp_all
    | absent noText => cases noText
  | column bare held =>
    cases ends with
    | found found => simp_all
    | absent _ _ noColumn => simp_all
  | row =>
    cases ends with
    | found held => cases held
    | absent _ _ _ noRow => cases noRow

/-- A text, an object and a list each weigh more than what they wrap. -/
theorem weight_lt_of_wraps (wraps : w.Wraps outer inner) : inner.weight < outer.weight := by
  cases wraps with
  | @text s _ spelled =>
    have small := Json.parse?_weight spelled
    have trimmed := Text.trim_length_le s
    simp only [Json.weight]
    omega
  | column _ held => exact Json.weight_get?_lt held
  | row => exact Json.weight_lt_of_mem List.mem_cons_self

theorem exists_wraps_or_ends (w : Wrapping) (v : Json) :
    (∃ inner, w.Wraps v inner) ∨ ∃ r, w.Ends v r := by
  cases v with
  | string s =>
    cases h : Json.parse? (Text.trim s) with
    | some inner => exact .inl ⟨inner, .text h⟩
    | none => exact .inr ⟨_, .notJson h⟩
  | object fields =>
    cases member : (Json.object fields).get? w.member with
    | some plan => exact .inr ⟨_, .found member⟩
    | none =>
      cases column : (Json.object fields).get? w.column with
      | some inner => exact .inl ⟨inner, .column member column⟩
      | none => exact .inr ⟨_, .absent rfl member column rfl⟩
  | array items =>
    cases items with
    | nil => exact .inr ⟨_, .absent rfl rfl rfl rfl⟩
    | cons first others => exact .inl ⟨first, .row first others⟩
  | _ => exact .inr ⟨_, .absent rfl rfl rfl rfl⟩

theorem exists_looks (w : Wrapping) (v : Json) :
    ∃ calls, w.Looks v calls (w.unwrap v) ∧ calls.length < v.weight := by
  induction hn : v.weight using Nat.strongRecOn generalizing v with
  | ind n ih =>
    obtain ⟨inner, wraps⟩ | ⟨r, ends⟩ := w.exists_wraps_or_ends v
    · have lighter := weight_lt_of_wraps wraps
      obtain ⟨later, below, short⟩ := ih inner.weight (hn ▸ lighter) inner rfl
      refine ⟨inner :: later, ?_, ?_⟩
      · rw [unwrap_of_wraps wraps]
        exact .into wraps below
      · rw [List.length_cons]
        omega
    · refine ⟨[], ?_, hn ▸ Json.weight_pos v⟩
      rw [unwrap_of_ends ends]
      exact .here ends

theorem Looks.unwrap_eq {calls : List Json} (looks : w.Looks v calls r) : w.unwrap v = r := by
  induction looks with
  | here ends => exact unwrap_of_ends ends
  | into wraps _ ih => exact (unwrap_of_wraps wraps).trans ih

theorem Looks.unique {calls calls' : List Json} (looks : w.Looks v calls r)
    (looks' : w.Looks v calls' r') : calls' = calls := by
  induction looks generalizing calls' with
  | here ends =>
    cases looks' with
    | here => rfl
    | into wraps => exact absurd ends wraps.not_ends
  | into wraps _ ih =>
    cases looks' with
    | here ends => exact absurd ends wraps.not_ends
    | into wraps' below' =>
      obtain rfl := wraps.unique wraps'
      rw [ih below']

end Unwrapping

/-- Looking through wrappings ends for every value. No value outweighs a text that spells it, so
each step goes to a lighter value, whichever kind of wrapping is looked through; the values that are
looked into are fewer than the weight of the first, and they and the result are the only ones. -/
theorem unwrap_terminates (w : Wrapping) (v : Json) :
    (∀ s j, Json.parse? s = some j → j.weight ≤ s.length) ∧
      (∀ outer inner, w.Wraps outer inner → inner.weight < outer.weight) ∧
      ∃ calls, w.Looks v calls (w.unwrap v) ∧ calls.length < v.weight ∧
        ∀ calls' r, w.Looks v calls' r → calls' = calls ∧ r = w.unwrap v := by
  obtain ⟨calls, looks, short⟩ := w.exists_looks v
  refine ⟨fun _ _ => Json.parse?_weight, fun _ _ => weight_lt_of_wraps, calls, looks, short, ?_⟩
  intro calls' r looks'
  exact ⟨looks.unique looks', looks'.unwrap_eq.symm⟩

end Wrapping

theorem exists_read {database : Database} {w : Wrapping} (delivered : wrapping? database = some w) :
    ∃ read : Json → Except ShapeError Tree, ∀ v,
      normalize database v = (w.unwrap v).bind read := by
  cases database with
  | postgres =>
    obtain rfl := Option.some.inj delivered
    exact ⟨_, fun _ => rfl⟩
  | mySql =>
    obtain rfl := Option.some.inj delivered
    exact ⟨_, fun _ => rfl⟩
  | sqlite => cases delivered

/-- Wrappings are transparent: a plan is read off a wrapped value as off the value itself, and what
is wrong with the value is what is wrong with all of it. -/
theorem normalize_wrapped {database : Database} {w : Wrapping}
    (delivered : wrapping? database = some w) {outer v : Json} (wrapped : w.Wrapped outer v) :
    normalize database outer = normalize database v ∧
      ∀ e, w.Ends v (.error e) → normalize database outer = .error e := by
  obtain ⟨read, reads⟩ := exists_read delivered
  have same : normalize database outer = normalize database v := by
    rw [reads, reads, Wrapping.unwrap_of_wrapped wrapped]
  refine ⟨same, fun e ends => ?_⟩
  rw [same, reads, Wrapping.unwrap_of_ends ends]
  rfl

def reportInWords : Json :=
  .array [.object [("QUERY PLAN", .string " [\x7b\"QUERY PLAN\": \"Limit\"\x7d, 1] ")], .null]

theorem normalize_reportInWords :
    wrapping? .postgres = some Postgres.wrapping ∧
      Postgres.wrapping.Wrapped reportInWords (.string "Limit") ∧
      Postgres.wrapping.Ends (.string "Limit") (.error (.notJson (s := "Limit"))) ∧
      normalize .postgres reportInWords = normalize .postgres (.string "Limit") ∧
      normalize .postgres reportInWords = .error (.notJson (s := "Limit")) := by
  have delivered : wrapping? .postgres = some Postgres.wrapping := rfl
  have spelled : Json.parse? (Text.trim " [\x7b\"QUERY PLAN\": \"Limit\"\x7d, 1] ") =
      some (.array [.object [("QUERY PLAN", .string "Limit")], .number (.natural 1)]) := by
    with_unfolding_all rfl
  have wrapped : Postgres.wrapping.Wrapped reportInWords (.string "Limit") :=
    .head (.row _ _) (.head (.column rfl rfl) (.head (.text spelled)
      (.head (.row _ _) (.single (.column rfl rfl)))))
  have ends : Postgres.wrapping.Ends (.string "Limit") (.error (.notJson (s := "Limit"))) :=
    .notJson (by with_unfolding_all rfl)
  obtain ⟨same, fails⟩ := normalize_wrapped delivered wrapped
  exact ⟨delivered, wrapped, ends, same, fails _ ends⟩

end SqlReview.Plan
