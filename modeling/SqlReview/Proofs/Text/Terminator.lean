import SqlReview.Proofs.Text.Appended

/-!
A text with a semicolon at its end. The semicolon is neither blank nor part of a word, so patterns
of words are found in the same places, and only the last part of a text that is cut takes it in.
-/
namespace SqlReview

namespace Text

def terminated (s : Text) : Text := s ++ [';']

theorem terminated_cons (c : Char) (s : Text) : terminated (c :: s) = c :: terminated s := rfl

def EndsSolid (s : Text) : Prop := ∀ c ∈ s.getLast?, isBlank c = false

instance (s : Text) : Decidable (EndsSolid s) :=
  decidable_of_iff (s.getLast?.any isBlank = false) (by
    unfold EndsSolid
    cases s.getLast? <;> simp)

section Trim

variable {s t : Text}

theorem EndsSolid.of_suffix (h : EndsSolid s) (sub : t <:+ s) : EndsSolid t := by
  intro c hc
  obtain ⟨front, rfl⟩ := sub
  apply h
  rw [List.getLast?_append, hc]
  rfl

theorem takeWhile_terminated {p : Char → Bool} (mark : p ';' = false) (s : Text) :
    (terminated s).takeWhile p = s.takeWhile p := by
  unfold terminated
  induction s with
  | nil => simp [mark]
  | cons c s ih => rw [List.cons_append, List.takeWhile_cons, List.takeWhile_cons, ih]

theorem dropWhile_terminated {p : Char → Bool} (mark : p ';' = false) (s : Text) :
    (terminated s).dropWhile p = terminated (s.dropWhile p) := by
  unfold terminated
  induction s with
  | nil => simp [mark]
  | cons c s ih =>
    rw [List.cons_append, List.dropWhile_cons, List.dropWhile_cons, ih]
    split <;> rfl

theorem drop_terminated {n : Nat} (h : n ≤ s.length) :
    (terminated s).drop n = terminated (s.drop n) :=
  List.drop_append_of_le_length h

theorem trimLeft_terminated (s : Text) : trimLeft (terminated s) = terminated (trimLeft s) :=
  dropWhile_terminated (by decide) s

theorem trim_terminated (h : EndsSolid s) : trim (terminated s) = terminated (trim s) := by
  have solid : EndsSolid (trimLeft s) := h.of_suffix (List.dropWhile_suffix isBlank)
  have tight : ∀ c ∈ (terminated (trimLeft s)).getLast?, isBlank c = false := by
    unfold terminated
    rw [List.getLast?_concat]
    rintro _ ⟨⟩
    decide
  unfold trim
  rw [trimLeft_terminated, trimRight_eq_self tight, trimRight_eq_self solid]

theorem terminated_ne (s : Text) : terminated s ≠ s := by
  intro same
  have longer := congrArg List.length same
  rw [terminated, List.length_append, List.length_singleton] at longer
  omega

theorem exists_lastPiece (isMark : Char → Bool) (s : Text) : ∃ front last, last <:+ s ∧
    ∀ t, (∀ c ∈ t, isMark c = false) → cut isMark (s ++ t) = front ++ [last ++ t] := by
  cases e : s.reverse.find? isMark with
  | none =>
    have free : ∀ c ∈ s, isMark c = false := by simpa using e
    refine ⟨[], s, List.suffix_rfl, fun t ht => cut_of_no_mark ?_⟩
    rw [List.forall_mem_append]
    exact ⟨free, ht⟩
  | some m =>
    obtain ⟨mark, last, front, parted, free⟩ := List.find?_eq_some_iff_append.1 e
    have parted : s = front.reverse ++ m :: last.reverse := by
      rw [← List.reverse_reverse s, parted]
      simp
    refine ⟨cut isMark front.reverse, last.reverse, ⟨front.reverse ++ [m], by simp [parted]⟩, ?_⟩
    intro t ht
    have free : ∀ c ∈ last.reverse ++ t, isMark c = false := by
      rw [List.forall_mem_append]
      exact ⟨by simpa using free, ht⟩
    rw [parted, List.append_assoc, List.cons_append, cut_append_mark mark, cut_of_no_mark free]

end Trim

end Text

def Occurrence.terminated (o : Occurrence) : Occurrence := { o with after := o.after.terminated }

namespace Pattern

open Text (terminated)

/-- The pattern neither looks at a semicolon at the end nor covers more than there is. -/
structure Steady (p : Pattern) : Prop where
  unmoved : ∀ before s, p before (terminated s) = p before s
  within : ∀ before s n, p before s = some n → n ≤ s.length

section Patterns

theorem inWord_terminated (s : Text) : inWord (terminated s).head? = inWord s.head? := by
  cases s with
  | nil => decide
  | cons c s => rfl

theorem Finds.steady {p : Pattern} {K : Text → Prop} (h : Finds p K)
    (words : ∀ k, K k → WordsOnly k) : Steady p :=
  have still : UnmovedBy [';'] p := h.unmovedBy words (by decide) (by decide) []
  ⟨still.same, still.within⟩

end Patterns

section Found

variable {p : Pattern}

theorem Steady.unmovedBy (h : Steady p) : UnmovedBy [';'] p := ⟨h.unmoved, h.within⟩

theorem Steady.occurrences (h : Steady p) (s : Text) :
    p.occurrences (terminated s) = (p.occurrences s).map Occurrence.terminated := by
  have all := h.unmovedBy.occurrences s
  rw [h.unmovedBy.occurrencesFrom_mark, Pattern.occurrencesFrom, List.append_nil] at all
  exact all

theorem Steady.first? (h : Steady p) (s : Text) :
    p.first? (terminated s) = (p.first? s).map Occurrence.terminated := by
  rw [Pattern.first?, h.occurrences, List.head?_map, Pattern.first?]

/-- Only the last of the texts between the occurrences takes the semicolon in. -/
theorem Steady.split (h : Steady p) (s : Text) : ∃ front last, p.split s = front ++ [last] ∧
    p.split (terminated s) = front ++ [terminated last] ∧ last <:+ s := by
  obtain ⟨front, last, e, e', sub⟩ := h.unmovedBy.split s
  rw [h.unmovedBy.splitFrom_mark, Pattern.splitFrom, List.reverse_cons, List.reverse_reverse] at e'
  exact ⟨front, last, e, e', sub⟩

end Found

end Pattern

end SqlReview
