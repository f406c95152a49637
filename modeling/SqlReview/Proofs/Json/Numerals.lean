import Mathlib.Data.List.TakeWhile
import SqlReview.Json.Numeral
import SqlReview.Proofs.Text.Letters

/-!
What the reader of numerals takes. No character of a numeral is blank, without a minus sign it
spells no negative number, and digits alone are their value as long as it fits.
-/
namespace SqlReview

namespace Numeral

def IsZero : Numeral → Prop
  | .natural n => n = 0
  | .negative _ => False
  | .real x => x.isZero = true

section Solid

variable {s rest digits : Text} {n : Numeral} {exponent : Option Int}

theorem not_isBlank_of_isAsciiDigit {c : Char} (h : Text.isAsciiDigit c = true) :
    Text.isBlank c = false := by
  have plain : Text.isPlain c = true := by simp [Text.isPlain, h]
  exact Text.not_isBlank_of_isPlain plain

theorem solid_of_dropWhile
    (solid : ∀ c ∈ s.dropWhile Text.isAsciiDigit, Text.isBlank c = false) :
    ∀ c ∈ s, Text.isBlank c = false := by
  have digits : ∀ c ∈ s.takeWhile Text.isAsciiDigit, Text.isBlank c = false := fun c hc =>
    not_isBlank_of_isAsciiDigit (List.all_eq_true.1 List.all_takeWhile c hc)
  rw [← List.takeWhile_append_dropWhile (p := Text.isAsciiDigit) (l := s)]
  exact List.forall_mem_append.2 ⟨digits, solid⟩

theorem solid_of_whole? (h : whole? s = some (digits, rest))
    (solid : ∀ c ∈ rest, Text.isBlank c = false) : ∀ c ∈ s, Text.isBlank c = false := by
  unfold whole? at h
  simp only at h
  split at h
  · cases h
  · cases h
    exact solid_of_dropWhile solid

theorem solid_of_fraction? (h : fraction? s = some (digits, rest))
    (solid : ∀ c ∈ rest, Text.isBlank c = false) : ∀ c ∈ s, Text.isBlank c = false := by
  unfold fraction? at h
  split at h
  · simp only at h
    split at h
    · cases h
    · cases h
      exact List.forall_mem_cons.2 ⟨rfl, solid_of_dropWhile solid⟩
  · cases h
    exact solid

theorem solid_of_splitSign (solid : ∀ c ∈ (splitSign s).2, Text.isBlank c = false) :
    ∀ c ∈ s, Text.isBlank c = false := by
  unfold splitSign at solid
  split at solid
  · exact List.forall_mem_cons.2 ⟨rfl, solid⟩
  · exact List.forall_mem_cons.2 ⟨rfl, solid⟩
  · exact solid

theorem solid_of_exponent? (h : exponent? s = some (exponent, rest))
    (solid : ∀ c ∈ rest, Text.isBlank c = false) : ∀ c ∈ s, Text.isBlank c = false := by
  cases s with
  | nil => exact List.forall_mem_nil _
  | cons c s =>
    simp only [exponent?] at h
    split at h
    · next mark =>
      split at h
      · cases h
      · cases h
        refine List.forall_mem_cons.2 ⟨?_, solid_of_splitSign (solid_of_dropWhile solid)⟩
        rcases mark with rfl | rfl <;> rfl
    · cases h
      exact solid

theorem solid_of_read? (h : read? s = some (n, [])) : ∀ c ∈ s, Text.isBlank c = false := by
  simp only [read?, Option.bind_eq_some_iff, Option.map_eq_some_iff] at h
  obtain ⟨⟨_, r₁⟩, h₁, ⟨_, r₂⟩, h₂, ⟨_, r₃⟩, h₃, _, _, e⟩ := h
  cases e
  have body := solid_of_whole? h₁ (solid_of_fraction? h₂ (solid_of_exponent? h₃
    (List.forall_mem_nil _)))
  split at body
  · next minus =>
    obtain ⟨t, rfl⟩ := List.head?_eq_some_iff.1 minus
    exact List.forall_mem_cons.2 ⟨rfl, body⟩
  · exact body

end Solid

section Signs

variable {s rest whole fraction : Text} {n : Numeral} {exponent : Option Int}

theorem negative_of_nearest? {num den : Nat} {shift : Int} {x : Binary64}
    (h : Binary64.nearest? num den shift = some x) : x.negative = false := by
  unfold Binary64.nearest? at h
  split at h
  · cases h
    rfl
  · simp only [Option.ite_none_left_eq_some] at h
    obtain ⟨-, h⟩ := h
    cases h
    rfl

theorem negative_of_scaled? {x y : Binary64} {shift : Int} (h : scaled? x shift = some y)
    (positive : x.negative = false) : y.negative = false := by
  fun_induction scaled? x shift with
  | case1 x shift near =>
    obtain ⟨power, -, h⟩ := Option.bind_eq_some_iff.1 h
    split at h
    · exact negative_of_nearest? h
    · exact negative_of_nearest? h
  | case2 =>
    cases h
    exact positive
  | case3 => cases h
  | case4 x shift _ _ _ ih =>
    obtain ⟨power, -, h⟩ := Option.bind_eq_some_iff.1 h
    obtain ⟨quotient, divided, h⟩ := Option.bind_eq_some_iff.1 h
    exact ih quotient h (negative_of_nearest? divided)

/-- Without a minus sign a numeral is no negative number, not even a negative zero. -/
theorem unsigned_of_read? (h : read? s = some (n, rest)) (unsigned : s.head? ≠ some '-') :
    (∃ v, n = .natural v) ∨ ∃ x, n = .real x ∧ x.negative = false := by
  simp only [read?, if_neg unsigned, Option.bind_eq_some_iff, Option.map_eq_some_iff] at h
  obtain ⟨_, -, _, -, _, -, _, h, e⟩ := h
  cases e
  simp only [ofParts?] at h
  split at h
  · cases h
    exact .inl ⟨_, rfl⟩
  · obtain ⟨start, begun, h⟩ := Option.bind_eq_some_iff.1 h
    obtain ⟨x, scaled, h⟩ := Option.bind_eq_some_iff.1 h
    cases h
    exact .inr ⟨x, rfl, negative_of_scaled? scaled (negative_of_nearest? begun)⟩

end Signs

section Digits

variable {s rest : Text} {n : Numeral}

theorem head_of_read? (h : read? s = some (n, rest)) :
    ∃ c t, s = c :: t ∧ (c = '-' ∨ Text.isAsciiDigit c = true) := by
  cases s with
  | nil => exact absurd (read?_length h) (Nat.not_lt_zero _)
  | cons c t =>
    refine ⟨c, t, rfl, ?_⟩
    by_cases minus : c = '-'
    · exact .inl minus
    · have start : (c :: t).head? ≠ some '-' := fun e => minus (Option.some.inj e)
      simp only [read?, if_neg start, Option.bind_eq_some_iff] at h
      obtain ⟨_, h, -⟩ := h
      by_cases digit : Text.isAsciiDigit c = true
      · exact .inr digit
      · simp [whole?, digit] at h

theorem le_foldl_digits (v : Nat) (s : Text) :
    v ≤ s.foldl (fun n c => n * 10 + Text.digitValue c) v := by
  induction s generalizing v with
  | nil => exact Nat.le_refl v
  | cons c s ih =>
    have next := ih (v * 10 + Text.digitValue c)
    rw [List.foldl_cons]
    omega

theorem gather_eq_of_le {v : Nat}
    (fits : s.foldl (fun n c => n * 10 + Text.digitValue c) v ≤ maxNatural) :
    gather v s = (s.foldl (fun n c => n * 10 + Text.digitValue c) v, []) := by
  induction s generalizing v with
  | nil => rfl
  | cons c s ih =>
    rw [List.foldl_cons] at fits ⊢
    have next := le_foldl_digits (v * 10 + Text.digitValue c) s
    simp only [gather]
    rw [if_neg (by omega), ih fits]

theorem read?_of_digits (h : read? s = some (n, rest))
    (digits : ∀ c ∈ s, Text.isAsciiDigit c = true) (fits : Text.valueIn 10 s ≤ maxNatural) :
    n = .natural (Text.valueIn 10 s) := by
  have start : s.head? ≠ some '-' := by
    intro minus
    exact absurd (digits '-' (List.mem_of_mem_head? minus)) (by decide)
  have all : s.takeWhile Text.isAsciiDigit = s := List.takeWhile_eq_self_iff.2 digits
  have none : s.dropWhile Text.isAsciiDigit = [] := List.dropWhile_eq_nil_iff.2 digits
  have gathered : gather 0 s = (Text.valueIn 10 s, []) := gather_eq_of_le fits
  simp only [read?, if_neg start, whole?, all, none, Option.bind_eq_some_iff,
    Option.map_eq_some_iff] at h
  obtain ⟨_, h₁, _, h₂, _, h₃, _, h₄, e⟩ := h
  split at h₁
  · cases h₁
  · cases h₁
    cases h₂
    cases h₃
    cases e
    simp only [ofParts?, gathered] at h₄
    cases h₄
    rfl

end Digits

end Numeral

end SqlReview
