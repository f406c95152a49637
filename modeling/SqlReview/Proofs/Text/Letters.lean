import SqlReview.Text.Pattern

/-!
Letters of the ASCII block by their numbers, and words that differ in letter case only.
-/
namespace SqlReview.Text

section Number

variable {c : Char}

theorem toNat_toLower (c : Char) :
    c.toLower.toNat = if 65 ≤ c.toNat ∧ c.toNat ≤ 90 then c.toNat + 32 else c.toNat := by
  unfold Char.toLower
  split
  · next h =>
    have lo : 65 ≤ c.toNat := h.1
    have hi : c.toNat ≤ 90 := h.2
    rw [if_pos ⟨lo, hi⟩]
    show (c.val + 32).toNat = _
    rw [UInt32.toNat_add]
    change (c.toNat + 32) % _ = _
    omega
  · next h =>
    have out : ¬ (65 ≤ c.toNat ∧ c.toNat ≤ 90) := h
    rw [if_neg out]

theorem toNat_toUpper (c : Char) :
    c.toUpper.toNat = if 97 ≤ c.toNat ∧ c.toNat ≤ 122 then c.toNat - 32 else c.toNat := by
  unfold Char.toUpper
  split
  · next h =>
    have lo : 97 ≤ c.toNat := h.1
    have hi : c.toNat ≤ 122 := h.2
    rw [if_pos ⟨lo, hi⟩]
    show (c.val + 4294967264).toNat = _
    rw [UInt32.toNat_add]
    change (c.toNat + 4294967264) % _ = _
    omega
  · next h =>
    have out : ¬ (97 ≤ c.toNat ∧ c.toNat ≤ 122) := h
    rw [if_neg out]

theorem isAsciiLetter_iff :
    isAsciiLetter c = true ↔ (97 ≤ c.toNat ∧ c.toNat ≤ 122) ∨ (65 ≤ c.toNat ∧ c.toNat ≤ 90) := by
  simp only [isAsciiLetter, Bool.or_eq_true, Bool.and_eq_true, decide_eq_true_eq]
  rfl

theorem isAsciiDigit_iff : isAsciiDigit c = true ↔ 48 ≤ c.toNat ∧ c.toNat ≤ 57 := by
  simp only [isAsciiDigit, Bool.and_eq_true, decide_eq_true_eq]
  rfl
end Number

/-- What words are written with: letters, digits and underscores of the ASCII block. -/
def isPlain (c : Char) : Bool := isAsciiLetter c || isAsciiDigit c || c == '_'

theorem isPlain_iff {c : Char} : isPlain c = true ↔
    (97 ≤ c.toNat ∧ c.toNat ≤ 122) ∨ (65 ≤ c.toNat ∧ c.toNat ≤ 90) ∨
      (48 ≤ c.toNat ∧ c.toNat ≤ 57) ∨ c.toNat = 95 := by
  have underscore : c = '_' ↔ c.toNat = 95 := by
    rw [← Char.toNat_inj]
    rfl
  simp only [isPlain, Bool.or_eq_true, isAsciiLetter_iff, isAsciiDigit_iff, beq_iff_eq, underscore,
    or_assoc]

theorem isWord_of_isPlain {c : Char} (h : isPlain c = true) : isWord c = true := by
  have small : c.toNat < 128 := by
    have := isPlain_iff.1 h
    omega
  unfold isWord
  rw [if_pos small]
  exact h

def farBlanks : List Nat :=
  [133, 160, 5760, 8192, 8193, 8194, 8195, 8196, 8197, 8198, 8199, 8200, 8201, 8202, 8232, 8233,
    8239, 8287, 12288]

theorem not_isWord_of_isBlank {c : Char} (h : isBlank c = true) : isWord c = false := by
  by_cases small : c.toNat < 128
  · simp only [isBlank, if_pos small, Bool.or_eq_true, Bool.and_eq_true, beq_iff_eq,
      decide_eq_true_eq] at h
    rw [← Bool.not_eq_true, isWord, if_pos small]
    intro word
    have plain := isPlain_iff.1 word
    omega
  · have far : c.toNat ∈ farBlanks := by
      simp only [isBlank, if_neg small, Bool.or_eq_true, Bool.and_eq_true, beq_iff_eq,
        decide_eq_true_eq] at h
      simp only [farBlanks, List.mem_cons, List.not_mem_nil, or_false]
      omega
    have outside : ∀ n ∈ farBlanks, (alphabeticRanges.holds n || markRanges.holds n ||
        decimalRanges.holds n || connectorRanges.holds n || n == 8204 || n == 8205) = false := by
      decide +kernel
    rw [isWord, if_neg small]
    exact outside _ far

theorem not_isBlank_of_isWord {c : Char} (word : isWord c = true) : isBlank c = false := by
  rw [← Bool.not_eq_true]
  intro blank
  rw [not_isWord_of_isBlank blank] at word
  cases word

theorem not_isBlank_of_isPlain {c : Char} (h : isPlain c = true) : isBlank c = false :=
  not_isBlank_of_isWord (isWord_of_isPlain h)

theorem eqIgnoreCase_comm (s t : Text) : eqIgnoreCase s t = eqIgnoreCase t s := by
  unfold eqIgnoreCase
  rw [Bool.eq_iff_iff, beq_iff_eq, beq_iff_eq, eq_comm]

def isCapital (c : Char) : Bool := 'A' ≤ c && c ≤ 'Z'

theorem isCapital_iff {c : Char} : isCapital c = true ↔ 65 ≤ c.toNat ∧ c.toNat ≤ 90 := by
  simp only [isCapital, Bool.and_eq_true, decide_eq_true_eq]
  rfl

end SqlReview.Text

namespace SqlReview.Pattern

open Text (isPlain isCapital isWord)

section Letter

variable {letter c : Char}

theorem writes_of_isPlain (capital : isCapital letter = true) (plain : isPlain c = true) :
    writes letter c = (c.toLower == letter.toLower) := by
  rw [Text.isCapital_iff] at capital
  rw [Text.isPlain_iff] at plain
  have noLong : (c.toNat == 383) = false := by
    rw [beq_eq_false_iff_ne]
    omega
  have noKelvin : (c.toNat == 8490) = false := by
    rw [beq_eq_false_iff_ne]
    omega
  unfold writes
  rw [noLong, noKelvin, Bool.and_false, Bool.and_false, Bool.or_false, Bool.or_false,
    Bool.eq_iff_iff, beq_iff_eq, beq_iff_eq, ← Char.toNat_inj, ← Char.toNat_inj,
    Text.toNat_toUpper, Text.toNat_toLower, Text.toNat_toLower, if_pos capital]
  split <;> split <;> omega

theorem isWord_of_writes (capital : isCapital letter = true) (h : writes letter c = true) :
    isWord c = true := by
  rw [Text.isCapital_iff] at capital
  simp only [writes, Bool.or_eq_true, Bool.and_eq_true, beq_iff_eq] at h
  rcases h with (h | ⟨_, h⟩) | ⟨_, h⟩
  · apply Text.isWord_of_isPlain
    rw [Text.isPlain_iff]
    rw [← Char.toNat_inj, Text.toNat_toUpper] at h
    split at h <;> omega
  · rw [isWord, h, if_neg (by decide)]
    decide +kernel
  · rw [isWord, h, if_neg (by decide)]
    decide +kernel

end Letter

def isSpelling (w run : Text) : Bool := spells w run && run.length == w.length

theorem isSpelling_cons (letter c : Char) (w run : Text) :
    isSpelling (letter :: w) (c :: run) = (writes letter c && isSpelling w run) := by
  have lengths : ((c :: run).length == (letter :: w).length) = (run.length == w.length) := by
    rw [Bool.eq_iff_iff, beq_iff_eq, beq_iff_eq, List.length_cons, List.length_cons]
    omega
  rw [isSpelling, spells, lengths, Bool.and_assoc]
  rfl

theorem isSpelling_of_plain {w run : Text} (capital : ∀ c ∈ w, isCapital c = true)
    (plain : ∀ c ∈ run, isPlain c = true) : isSpelling w run = Text.eqIgnoreCase run w := by
  induction w generalizing run with
  | nil =>
    cases run with
    | nil => rfl
    | cons => rfl
  | cons letter w ih =>
    cases run with
    | nil => rfl
    | cons c run =>
      obtain ⟨first, capital⟩ := List.forall_mem_cons.1 capital
      obtain ⟨firstPlain, plain⟩ := List.forall_mem_cons.1 plain
      have tail := ih capital plain
      unfold Text.eqIgnoreCase Text.lower at tail ⊢
      rw [isSpelling_cons, writes_of_isPlain first firstPlain, tail]
      rfl

end SqlReview.Pattern
