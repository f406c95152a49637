import SqlReview.Proofs.Text.Basic
import SqlReview.Proofs.Text.Letters

/-!
Where patterns hold in a text that is put together from parts. A pattern that starts with one of
some words is found only where a run of word characters spells one of them, so the parts in which
no run does are passed over as a whole.
-/
namespace SqlReview.Pattern

def wordRun (s : Text) : Text := s.takeWhile Text.isWord

/-- The pattern holds only where a run begins that spells one of the words. -/
def Starts (p : Pattern) (ws : List Text) : Prop :=
  ∀ before s n, p before s = some n → 0 < n ∧ inWord before = false ∧ wordRun s ≠ [] ∧
    ∃ w ∈ ws, isSpelling w (wordRun s) = true

section Starts

variable {p : Pattern} {w s : Text} {ws : List Text}

theorem Starts.mono {more : List Text} (h : Starts p ws) (sub : ws ⊆ more) : Starts p more := by
  intro before s n hn
  obtain ⟨pos, alone, filled, w, hw, spelled⟩ := h before s n hn
  exact ⟨pos, alone, filled, w, sub hw, spelled⟩

theorem isWord_of_spells (capital : ∀ c ∈ w, Text.isCapital c = true) (h : spells w s = true) :
    (∀ c ∈ s.take w.length, Text.isWord c = true) ∧ w.length ≤ s.length := by
  induction w generalizing s with
  | nil => simp
  | cons letter w ih =>
    cases s with
    | nil => cases h
    | cons c s =>
      obtain ⟨first, capital⟩ := List.forall_mem_cons.1 capital
      simp only [spells, Bool.and_eq_true] at h
      have tail := ih capital h.2
      constructor
      · rw [List.length_cons, List.take_succ_cons, List.forall_mem_cons]
        exact ⟨isWord_of_writes first h.1, tail.1⟩
      · exact Nat.succ_le_succ tail.2

theorem spells_take (w s : Text) : spells w (s.take w.length) = spells w s := by
  induction w generalizing s with
  | nil => rfl
  | cons letter w ih =>
    cases s with
    | nil => rfl
    | cons c s => simp only [List.length_cons, List.take_succ_cons, spells, ih]

theorem wordRun_of_spells (capital : ∀ c ∈ w, Text.isCapital c = true) (h : spells w s = true)
    (after : inWord (s.drop w.length).head? = false) : wordRun s = s.take w.length := by
  have stop : ∀ c ∈ (s.drop w.length).head?, Text.isWord c = false := by
    intro c hc
    rw [Option.mem_def.1 hc] at after
    exact after
  have run := Text.takeWhile_run (isWord_of_spells capital h).1 stop
  rw [List.take_append_drop] at run
  exact run

theorem isSpelling_wordRun (capital : ∀ c ∈ w, Text.isCapital c = true) (h : spells w s = true)
    (after : inWord (s.drop w.length).head? = false) : isSpelling w (wordRun s) = true := by
  unfold isSpelling
  rw [wordRun_of_spells capital h after, spells_take, h, List.length_take,
    Nat.min_eq_left (isWord_of_spells capital h).2]
  simp

theorem wordRun_ne_nil (filled : w ≠ []) (h : isSpelling w (wordRun s) = true) :
    wordRun s ≠ [] := by
  intro empty
  simp only [isSpelling, empty, Bool.and_eq_true, beq_iff_eq, List.length_nil] at h
  exact filled (List.eq_nil_of_length_eq_zero h.2.symm)

def Capitals (w : Text) : Prop := w ≠ [] ∧ ∀ c ∈ w, Text.isCapital c = true

theorem starts_word (hw : Capitals w) : Starts (word w) [w] := by
  intro before s n h
  simp only [word, Option.ite_none_right_eq_some, Bool.and_eq_true, Bool.not_eq_true'] at h
  obtain ⟨⟨⟨alone, spelled⟩, after⟩, hn⟩ := h
  have run := isSpelling_wordRun hw.2 spelled after
  have pos : 0 < w.length := List.length_pos_iff.2 hw.1
  have only : w ∈ [w] := List.mem_singleton_self w
  exact ⟨Option.some.inj hn ▸ pos, alone, wordRun_ne_nil hw.1 run, w, only, run⟩

theorem inWord_of_blankCount (h : blankCount s ≠ 0) : inWord s.head? = false := by
  cases s with
  | nil => rfl
  | cons c s =>
    apply Text.not_isWord_of_isBlank
    apply Decidable.byContradiction
    intro solid
    rw [blankCount, List.takeWhile_cons_of_neg solid] at h
    exact h rfl

theorem starts_phrase {second : Text} (hw : Capitals w) : Starts (phrase w second) [w] := by
  intro before s n h
  simp only [phrase, Option.ite_none_right_eq_some, Bool.and_eq_true, Bool.not_eq_true',
    bne_iff_ne] at h
  obtain ⟨⟨spelled, gap⟩, ⟨⟨alone, _⟩, _⟩, hn⟩ := h
  have run := isSpelling_wordRun hw.2 spelled (inWord_of_blankCount gap)
  have pos : 0 < w.length := List.length_pos_iff.2 hw.1
  refine ⟨?_, alone, wordRun_ne_nil hw.1 run, w, List.mem_singleton_self w, run⟩
  rw [← Option.some.inj hn]
  omega

theorem starts_oneOf {ps : List Pattern} (h : ∀ p ∈ ps, Starts p ws) : Starts (oneOf ps) ws := by
  intro before s n hn
  obtain ⟨p, hp, holds⟩ := List.exists_of_findSome?_eq_some hn
  exact h p hp before s n holds

end Starts

/-- The character before a place, of the text up to there and what stands before that. -/
def charBefore (before : Option Char) (s : Text) : Option Char := s.getLast?.or before

/-- The pattern holds at no place of a part, which stands after a character and before a rest. -/
def Clear (p : Pattern) : Option Char → Text → Text → Prop
  | _, [], _ => True
  | before, c :: part, rest =>
    p before (c :: (part ++ rest)) = none ∧ Clear p (some c) part rest

section Parts

variable {p : Pattern} {before : Option Char} {seen part rest : Text}

theorem charBefore_cons (c : Char) (s : Text) :
    charBefore before (c :: s) = charBefore (some c) s := by
  unfold charBefore
  rw [List.getLast?_cons]
  cases s.getLast? <;> rfl

theorem charBefore_reverse (seen part : Text) :
    charBefore seen.head? part = (part.reverse ++ seen).head? := by
  unfold charBefore
  rw [List.head?_append, List.head?_reverse]

theorem Clear.append {more : Text} (first : Clear p before part (more ++ rest))
    (second : Clear p (charBefore before part) more rest) : Clear p before (part ++ more) rest := by
  induction part generalizing before with
  | nil => exact second
  | cons c part ih =>
    rw [charBefore_cons] at second
    have here := first.1
    rw [← List.append_assoc] at here
    exact ⟨here, ih first.2 second⟩

theorem occurrencesFrom_clear (h : Clear p seen.head? part rest) :
    p.occurrencesFrom seen 0 (part ++ rest) =
      p.occurrencesFrom (part.reverse ++ seen) 0 rest := by
  induction part generalizing seen with
  | nil => rfl
  | cons c part ih =>
    rw [List.cons_append, occurrencesFrom, h.1]
    have later : Clear p (c :: seen).head? part rest := h.2
    simp only
    rw [ih later, List.reverse_cons, List.append_assoc]
    rfl

theorem occurrencesFrom_skip (seen part rest : Text) :
    p.occurrencesFrom seen part.length (part ++ rest) =
      p.occurrencesFrom (part.reverse ++ seen) 0 rest := by
  induction part generalizing seen with
  | nil => rfl
  | cons c part ih =>
    rw [List.length_cons, List.cons_append, occurrencesFrom, ih, List.reverse_cons,
      List.append_assoc]
    rfl

theorem occurrencesFrom_covered (filled : part ≠ [])
    (h : p seen.head? (part ++ rest) = some part.length) :
    p.occurrencesFrom seen 0 (part ++ rest) =
      ⟨seen.reverse, part, rest⟩ :: p.occurrencesFrom (part.reverse ++ seen) 0 rest := by
  cases part with
  | nil => exact absurd rfl filled
  | cons c part =>
    rw [List.cons_append, List.length_cons] at h
    rw [List.cons_append, occurrencesFrom, h]
    have covered : (c :: part ++ rest).take (part.length + 1) = c :: part := List.take_left' rfl
    have after : (c :: part ++ rest).drop (part.length + 1) = rest := List.drop_left' rfl
    simp only
    rw [occurrencesFrom_skip, ← List.cons_append, covered, after, List.reverse_cons,
      List.append_assoc]
    rfl

theorem before_of_mem_occurrencesFrom {s : Text} {skip : Nat} {o : Occurrence}
    (h : o ∈ p.occurrencesFrom seen skip s) : ∃ t, o.before = seen.reverse ++ t ∧ t <+: s := by
  have longer {c : Char} {seen s : Text} : (∃ t, o.before = (c :: seen).reverse ++ t ∧ t <+: s) →
      ∃ t, o.before = seen.reverse ++ t ∧ t <+: c :: s := by
    rintro ⟨t, e, sub⟩
    refine ⟨c :: t, ?_, List.cons_prefix_cons.2 ⟨rfl, sub⟩⟩
    rw [e, List.reverse_cons, List.append_assoc, List.singleton_append]
  induction s generalizing seen skip with
  | nil => cases h
  | cons c s ih =>
    cases skip with
    | succ skip => exact longer (ih h)
    | zero =>
      rw [occurrencesFrom] at h
      split at h
      · rcases List.mem_cons.1 h with rfl | h
        · exact ⟨[], (List.append_nil _).symm, List.nil_prefix⟩
        · exact longer (ih h)
      · exact longer (ih h)

theorem text_of_mem_occurrencesFrom {s : Text} {skip : Nat} {o : Occurrence}
    (h : o ∈ p.occurrencesFrom seen skip s) :
    o.before ++ (o.covered ++ o.after) = seen.reverse ++ s := by
  induction s generalizing seen skip with
  | nil => cases h
  | cons c s ih =>
    have whole : (c :: seen).reverse ++ s = seen.reverse ++ c :: s := by simp
    cases skip with
    | succ skip => exact (ih h).trans whole
    | zero =>
      rw [occurrencesFrom] at h
      split at h
      · rcases List.mem_cons.1 h with rfl | h
        · simp only [List.take_append_drop]
        · exact (ih h).trans whole
      · exact (ih h).trans whole

theorem text_of_mem_occurrences {s : Text} {o : Occurrence} (h : o ∈ p.occurrences s) :
    s = o.before ++ (o.covered ++ o.after) := (text_of_mem_occurrencesFrom h).symm

theorem text_of_first? {s : Text} {o : Occurrence} (h : p.first? s = some o) :
    s = o.before ++ (o.covered ++ o.after) :=
  text_of_mem_occurrences (List.mem_of_head? h)

theorem splitFrom_clear {piece : Text} (h : Clear p before part rest) :
    p.splitFrom before piece 0 (part ++ rest) =
      p.splitFrom (charBefore before part) (part.reverse ++ piece) 0 rest := by
  induction part generalizing before piece with
  | nil => rfl
  | cons c part ih =>
    rw [List.cons_append, splitFrom, h.1]
    simp only
    rw [ih h.2, charBefore_cons, List.reverse_cons, List.append_assoc]
    rfl

theorem splitFrom_skip (piece part rest : Text) :
    p.splitFrom before piece part.length (part ++ rest) =
      p.splitFrom (charBefore before part) piece 0 rest := by
  induction part generalizing before with
  | nil => rfl
  | cons c part ih =>
    rw [List.length_cons, List.cons_append, splitFrom, ih, charBefore_cons]

theorem splitFrom_covered {piece : Text} (filled : part ≠ [])
    (h : p before (part ++ rest) = some part.length) :
    p.splitFrom before piece 0 (part ++ rest) =
      piece.reverse :: p.splitFrom (charBefore before part) [] 0 rest := by
  cases part with
  | nil => exact absurd rfl filled
  | cons c part =>
    rw [List.cons_append, List.length_cons] at h
    rw [List.cons_append, splitFrom, h]
    simp only
    rw [splitFrom_skip, charBefore_cons]

theorem first?_of_clear (h : Clear p none part []) : p.first? part = none := by
  have all : p.occurrencesFrom [] 0 (part ++ []) = _ := occurrencesFrom_clear h
  rw [List.append_nil] at all
  unfold first? occurrences
  rw [all]
  rfl

theorem first?_of_covered {found : Text} (h : Clear p none part (found ++ rest))
    (filled : found ≠ []) (holds : p (charBefore none part) (found ++ rest) = some found.length) :
    p.first? (part ++ (found ++ rest)) = some ⟨part, found, rest⟩ := by
  have all : p.occurrencesFrom [] 0 (part ++ (found ++ rest)) = _ := occurrencesFrom_clear h
  rw [← List.head?_nil, charBefore_reverse] at holds
  rw [occurrencesFrom_covered filled holds] at all
  unfold first? occurrences
  rw [all, List.append_nil, List.reverse_reverse]
  rfl

theorem first?_of_holds (h : Clear p none part rest) (filled : rest ≠ []) {n : Nat}
    (holds : p (charBefore none part) rest = some (n + 1)) :
    ∃ found after, p.first? (part ++ rest) = some ⟨part, found, after⟩ := by
  have all : p.occurrencesFrom [] 0 (part ++ rest) = _ := occurrencesFrom_clear h
  rw [← List.head?_nil, charBefore_reverse] at holds
  cases rest with
  | nil => exact absurd rfl filled
  | cons c rest =>
    rw [occurrencesFrom, holds] at all
    unfold first? occurrences
    rw [all, List.append_nil, List.reverse_reverse]
    exact ⟨_, _, rfl⟩

end Parts

section Clearance

variable {p : Pattern} {ws : List Text} {before : Option Char} {part rest : Text}

theorem Starts.eq_none_of_mark (h : Starts p ws) {c : Char} {s : Text}
    (mark : Text.isWord c = false) : p before (c :: s) = none := by
  rw [Option.eq_none_iff_forall_ne_some]
  intro n hn
  obtain ⟨_, _, filled, _⟩ := h before (c :: s) n hn
  apply filled
  unfold wordRun
  rw [List.takeWhile_cons_of_neg]
  rw [mark]
  exact Bool.false_ne_true

theorem Starts.eq_none_of_inWord (h : Starts p ws) (inside : inWord before = true) (s : Text) :
    p before s = none := by
  rw [Option.eq_none_iff_forall_ne_some]
  intro n hn
  obtain ⟨_, alone, _⟩ := h before s n hn
  rw [inside] at alone
  cases alone

theorem Starts.clear_of_marks (h : Starts p ws) (marks : ∀ c ∈ part, Text.isWord c = false) :
    Clear p before part rest := by
  induction part generalizing before with
  | nil => trivial
  | cons c part ih =>
    obtain ⟨mark, marks⟩ := List.forall_mem_cons.1 marks
    exact ⟨h.eq_none_of_mark mark, ih marks⟩

theorem Starts.clear_of_inWord (h : Starts p ws) (inside : inWord before = true)
    (word : ∀ c ∈ part, Text.isWord c = true) : Clear p before part rest := by
  induction part generalizing before with
  | nil => trivial
  | cons c part ih =>
    obtain ⟨first, word⟩ := List.forall_mem_cons.1 word
    exact ⟨h.eq_none_of_inWord inside _, ih first word⟩

theorem wordRun_append (word : ∀ c ∈ part, Text.isWord c = true)
    (after : inWord rest.head? = false) : wordRun (part ++ rest) = part := by
  apply Text.takeWhile_run word
  intro c hc
  rw [Option.mem_def.1 hc] at after
  exact after

theorem Starts.eq_none_of_run (h : Starts p ws) (word : ∀ c ∈ part, Text.isWord c = true)
    (other : ∀ w ∈ ws, isSpelling w part = false) (after : inWord rest.head? = false) :
    p before (part ++ rest) = none := by
  rw [Option.eq_none_iff_forall_ne_some]
  intro n hn
  obtain ⟨_, _, _, w, hw, spelled⟩ := h _ _ n hn
  rw [wordRun_append word after, other w hw] at spelled
  cases spelled

/-- A run that spells none of the words is passed over. -/
theorem Starts.clear_of_run (h : Starts p ws) (word : ∀ c ∈ part, Text.isWord c = true)
    (other : ∀ w ∈ ws, isSpelling w part = false) (after : inWord rest.head? = false) :
    Clear p before part rest := by
  cases part with
  | nil => trivial
  | cons c part =>
    have inside := (List.forall_mem_cons.1 word)
    exact ⟨h.eq_none_of_run word other after, h.clear_of_inWord inside.1 inside.2⟩

end Clearance

theorem inWord_head_marks {s : Text} (filled : s ≠ []) (marks : ∀ c ∈ s, Text.isWord c = false)
    (t : Text) : inWord (s ++ t).head? = false := by
  cases s with
  | nil => exact absurd rfl filled
  | cons c s => exact marks c List.mem_cons_self

theorem inWord_head_blank {gap : Text} (filled : gap ≠ [])
    (blank : ∀ c ∈ gap, Text.isBlank c = true) (s : Text) : inWord (gap ++ s).head? = false :=
  inWord_head_marks filled (fun c hc => Text.not_isWord_of_isBlank (blank c hc)) s

section Covering

variable {before : Option Char} {w run rest : Text}

theorem spells_append (spelled : isSpelling w run = true) : spells w (run ++ rest) = true := by
  simp only [isSpelling, Bool.and_eq_true, beq_iff_eq] at spelled
  rw [← spells_take, ← spelled.2, List.take_left' rfl]
  exact spelled.1

theorem length_of_isSpelling (spelled : isSpelling w run = true) : w.length = run.length := by
  simp only [isSpelling, Bool.and_eq_true, beq_iff_eq] at spelled
  exact spelled.2.symm

theorem word_covers (alone : inWord before = false) (spelled : isSpelling w run = true)
    (after : inWord rest.head? = false) : word w before (run ++ rest) = some run.length := by
  unfold word
  rw [spells_append spelled, length_of_isSpelling spelled, List.drop_left' rfl, alone, after]
  rfl

theorem blankCount_append {gap : Text} (blank : ∀ c ∈ gap, Text.isBlank c = true)
    (solid : ∀ c ∈ rest.head?, Text.isBlank c = false) : blankCount (gap ++ rest) = gap.length := by
  unfold blankCount
  rw [Text.takeWhile_run blank solid]

theorem take_blankCount (s : Text) : s.take (blankCount s) = s.takeWhile Text.isBlank :=
  (List.prefix_iff_eq_take.1 (List.takeWhile_prefix _)).symm

theorem isBlank_take_blankCount (s : Text) :
    ∀ c ∈ s.take (blankCount s), Text.isBlank c = true := by
  rw [take_blankCount]
  exact List.all_eq_true.1 List.all_takeWhile

theorem take_blankCount_ne_nil {s : Text} (h : blankCount s ≠ 0) :
    s.take (blankCount s) ≠ [] := by
  rw [take_blankCount]
  exact fun none => h (congrArg List.length none)

theorem phrase_covers {second gap run' : Text} (alone : inWord before = false)
    (spelled : isSpelling w run = true) (filled : gap ≠ [])
    (blank : ∀ c ∈ gap, Text.isBlank c = true) (spelled' : isSpelling second run' = true)
    (solid : ∀ c ∈ run'.head?, Text.isBlank c = false) (filled' : run' ≠ [])
    (after : inWord rest.head? = false) :
    phrase w second before (run ++ (gap ++ (run' ++ rest))) =
      some (run.length + gap.length + run'.length) := by
  have gapped : blankCount (gap ++ (run' ++ rest)) = gap.length := by
    apply blankCount_append blank
    cases run' with
    | nil => exact absurd rfl filled'
    | cons c t => exact solid
  have wide : (gap.length != 0) = true := by
    rw [bne_iff_ne]
    exact fun none => filled (List.eq_nil_of_length_eq_zero none)
  have beyond : (run ++ (gap ++ (run' ++ rest))).drop (run.length + gap.length) = run' ++ rest := by
    rw [← List.append_assoc, List.drop_left' List.length_append]
  unfold phrase
  rw [spells_append spelled, length_of_isSpelling spelled, List.drop_left' rfl, gapped]
  simp only [wide, beyond, spells_append spelled', length_of_isSpelling spelled',
    List.drop_left' rfl, alone, after]
  rfl

section OneOf

variable {p : Pattern} {ps : List Pattern} {s : Text}

theorem oneOf_of_some {n : Nat} (h : p before s = some n) : oneOf (p :: ps) before s = some n := by
  unfold oneOf
  rw [List.findSome?_cons_of_isSome]
  · exact h
  · rw [h]
    rfl

theorem oneOf_of_none (h : p before s = none) :
    oneOf (p :: ps) before s = oneOf ps before s := by
  unfold oneOf
  rw [List.findSome?_cons_of_isNone]
  rw [h]
  rfl

end OneOf

def Includes (p q : Pattern) : Prop := ∀ before s, (q before s).isSome → (p before s).isSome

theorem Includes.refl (p : Pattern) : Includes p p := fun _ _ h => h

theorem includes_oneOf {q : Pattern} {ps : List Pattern} (hq : q ∈ ps) : Includes (oneOf ps) q := by
  intro before s h
  unfold oneOf
  rw [List.findSome?_isSome_iff]
  exact ⟨q, hq, h⟩

end Covering

end SqlReview.Pattern
