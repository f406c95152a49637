import SqlReview.Proofs.Text.Occurrences

/-!
A text that another one is put after. Where a mark stands between the two that no word of a pattern
has in it, the pattern finds what it has found before, and after that what it finds from the mark
on.
-/
namespace SqlReview

def Occurrence.followed (rest : Text) (o : Occurrence) : Occurrence :=
  { o with after := o.after ++ rest }

namespace Pattern

/-- Whether a pattern covers a text depends on that text and on the characters next to it. -/
structure Tells (p : Pattern) (H : Option Char → Text → Option Char → Prop) : Prop where
  covers_iff {before : Option Char} {k rest : Text} :
    p before (k ++ rest) = some k.length ↔ H before k rest.head?
  within {before : Option Char} {s : Text} {n : Nat} (h : p before s = some n) : n ≤ s.length

/-- The pattern holds in a text as it does where the rest comes after the text. -/
structure UnmovedBy (rest : Text) (p : Pattern) : Prop where
  same (before : Option Char) (s : Text) : p before (s ++ rest) = p before s
  within (before : Option Char) (s : Text) (n : Nat) (h : p before s = some n) : n ≤ s.length

section Words

variable {w k k' : Text} {m : Char}

def WordsOnly (k : Text) : Prop := ∀ c ∈ k, Text.isWord c = true ∨ Text.isBlank c = true

theorem WordsOnly.free (h : WordsOnly k) (mark : Text.isWord m = false)
    (solid : Text.isBlank m = false) : m ∉ k := by
  intro inside
  rcases h m inside with word | blank
  · rw [mark] at word
    cases word
  · rw [solid] at blank
    cases blank

theorem WordsOnly.append (h : WordsOnly k) (h' : WordsOnly k') : WordsOnly (k ++ k') :=
  List.forall_mem_append.2 ⟨h, h'⟩

theorem wordsOnly_blank (blank : ∀ c ∈ k, Text.isBlank c = true) : WordsOnly k :=
  fun c hc => .inr (blank c hc)

theorem wordsOnly_spelled (hw : Capitals w) (h : isSpelling w k = true) : WordsOnly k :=
  fun c hc => .inl (isWord_of_isSpelling hw.2 h c hc)

theorem IsPhrase.wordsOnly {second : Text} (hw : Capitals w) (hs : Capitals second)
    (h : IsPhrase w second k) : WordsOnly k := by
  cases h with
  | words spelled _ blank spelled' =>
    exact (wordsOnly_spelled hw spelled).append
      ((wordsOnly_blank blank).append (wordsOnly_spelled hs spelled'))

end Words

section Marked

variable {p : Pattern} {K : Text → Prop} {H : Option Char → Text → Option Char → Prop}
variable {m : Char}

theorem Finds.tells (h : Finds p K) :
    Tells p fun before k after => inWord before = false ∧ K k ∧ inWord after = false :=
  ⟨h.covers_iff, h.within⟩

theorem Tells.eq_some_iff (h : Tells p H) {before : Option Char} {s : Text} {n : Nat} :
    p before s = some n ↔ n ≤ s.length ∧ H before (s.take n) (s.drop n).head? := by
  have whole (short : n ≤ s.length) :
      p before s = some n ↔ H before (s.take n) (s.drop n).head? := by
    rw [← h.covers_iff, List.take_append_drop, List.length_take_of_le short]
  exact ⟨fun holds => ⟨h.within holds, (whole (h.within holds)).1 holds⟩,
    fun ⟨short, holds⟩ => (whole short).2 holds⟩

/-- A mark that a pattern takes for the end of a text hides from it what comes after. -/
theorem Tells.unmovedBy (h : Tells p H) (free : ∀ before k after, H before k after → m ∉ k)
    (end_ : ∀ before k, H before k (some m) ↔ H before k none) (t : Text) :
    UnmovedBy (m :: t) p where
  same before s := by
    have next (n : Nat) : H before (s.take n) (s.drop n ++ m :: t).head? ↔
        H before (s.take n) (s.drop n).head? := by
      cases s.drop n with
      | nil => exact end_ before _
      | cons c u => exact Iff.rfl
    have inside {n : Nat} (short : n ≤ s.length) :
        p before (s ++ m :: t) = some n ↔ p before s = some n := by
      have longer : n ≤ (s ++ m :: t).length := by
        rw [List.length_append]
        exact Nat.le_add_right_of_le short
      rw [h.eq_some_iff, h.eq_some_iff, List.take_append_of_le_length short,
        List.drop_append_of_le_length short, next, iff_true_intro short, iff_true_intro longer]
    ext n
    constructor
    · intro holds
      apply (inside _).1 holds
      -- else the mark would be in what the pattern covers
      apply Nat.le_of_not_lt
      intro long
      refine free _ _ _ (h.eq_some_iff.1 holds).2 (List.mem_take_iff_getElem.2 ⟨s.length, ?_, ?_⟩)
      · have := (h.eq_some_iff.1 holds).1
        omega
      · simp
    · intro holds
      exact (inside (h.within holds)).2 holds
  within _ _ _ holds := h.within holds

theorem Finds.unmovedBy (h : Finds p K) (words : ∀ k, K k → WordsOnly k)
    (mark : Text.isWord m = false) (solid : Text.isBlank m = false) (t : Text) :
    UnmovedBy (m :: t) p := by
  refine h.tells.unmovedBy (fun _ k _ holds => (words k holds.2.1).free mark solid) ?_ t
  intro before k
  have apart : inWord (some m) = inWord none := mark
  rw [apart]

end Marked

namespace UnmovedBy

variable {p : Pattern} {s rest : Text} {before : Option Char} {m : Char}

theorem covers_nothing (h : UnmovedBy rest p) (before : Option Char) (n : Nat) :
    p before rest ≠ some (n + 1) := by
  intro covers
  have short := h.within before [] (n + 1) (h.same before [] ▸ covers)
  exact Nat.not_succ_le_zero n short

theorem occurrencesFrom_mark (h : UnmovedBy (m :: rest) p) (seen : Text) :
    p.occurrencesFrom seen 0 (m :: rest) = p.occurrencesFrom (m :: seen) 0 rest := by
  rw [Pattern.occurrencesFrom]
  split
  · next n covers => exact absurd covers (h.covers_nothing _ n)
  · rfl

theorem splitFrom_mark (h : UnmovedBy (m :: rest) p) (piece : Text) :
    p.splitFrom before piece 0 (m :: rest) = p.splitFrom (some m) (m :: piece) 0 rest := by
  rw [Pattern.splitFrom]
  split
  · next n covers => exact absurd covers (h.covers_nothing _ n)
  · rfl

theorem occurrencesFrom (h : UnmovedBy rest p) {seen : Text} {skip : Nat}
    (short : skip ≤ s.length) : p.occurrencesFrom seen skip (s ++ rest) =
      (p.occurrencesFrom seen skip s).map (Occurrence.followed rest) ++
        p.occurrencesFrom (s.reverse ++ seen) 0 rest := by
  induction s generalizing seen skip with
  | nil =>
    obtain rfl := Nat.le_zero.1 short
    rfl
  | cons c s ih =>
    have seen' : (c :: s).reverse ++ seen = s.reverse ++ c :: seen := by simp
    rw [seen', List.cons_append]
    cases skip with
    | succ skip => exact ih (Nat.le_of_succ_le_succ short)
    | zero =>
      have here : p seen.head? (c :: (s ++ rest)) = p seen.head? (c :: s) :=
        h.same seen.head? (c :: s)
      rw [Pattern.occurrencesFrom, Pattern.occurrencesFrom, here]
      split
      · next n covers =>
        have fits := Nat.le_of_succ_le_succ (h.within _ _ _ covers)
        rw [ih fits, List.map_cons, List.cons_append, List.take_succ_cons, List.take_succ_cons,
          List.drop_succ_cons, List.drop_succ_cons, List.take_append_of_le_length fits,
          List.drop_append_of_le_length fits]
        rfl
      · exact ih (Nat.zero_le _)

theorem occurrences (h : UnmovedBy rest p) (s : Text) : p.occurrences (s ++ rest) =
    (p.occurrences s).map (Occurrence.followed rest) ++ p.occurrencesFrom s.reverse 0 rest := by
  have all : p.occurrencesFrom [] 0 (s ++ rest) = _ := h.occurrencesFrom (Nat.zero_le _)
  rw [List.append_nil] at all
  exact all

theorem count_le (h : UnmovedBy rest p) (s : Text) : p.count s ≤ p.count (s ++ rest) := by
  rw [Pattern.count, Pattern.count, h.occurrences, List.length_append, List.length_map]
  exact Nat.le_add_right _ _

theorem first?_of_some (h : UnmovedBy rest p) {o : Occurrence} (found : p.first? s = some o) :
    p.first? (s ++ rest) = some (o.followed rest) := by
  rw [Pattern.first?] at found
  rw [Pattern.first?, h.occurrences, List.head?_append, List.head?_map, found]
  rfl

theorem occursIn (h : UnmovedBy rest p) (found : p.occursIn s = true) :
    p.occursIn (s ++ rest) = true := by
  obtain ⟨o, first⟩ := Option.isSome_iff_exists.1 found
  rw [Pattern.occursIn, h.first?_of_some first]
  rfl

/-- What is found in the rest at first has all of the text before it. -/
theorem first?_of_none (h : UnmovedBy rest p) {o : Occurrence} (none : p.first? s = none)
    (found : p.first? (s ++ rest) = some o) : ∃ t, o.before = s ++ t ∧ t <+: rest := by
  rw [Pattern.first?, List.head?_eq_none_iff] at none
  rw [Pattern.first?, h.occurrences, none, List.map_nil, List.nil_append] at found
  have before := before_of_mem_occurrencesFrom (List.mem_of_head? found)
  rwa [List.reverse_reverse] at before

/-- Of the texts between the occurrences all but the last stay, which goes on with the rest. No
text has begun while characters are skipped. -/
theorem splitFrom (h : UnmovedBy rest p) (before : Option Char) (piece : Text) {skip : Nat}
    (fresh : skip = 0 ∨ piece = []) (short : skip ≤ s.length) : ∃ front last,
      p.splitFrom before piece skip s = front ++ [last] ∧
      p.splitFrom before piece skip (s ++ rest) =
        front ++ p.splitFrom (charBefore before s) last.reverse 0 rest ∧
      last <:+ piece.reverse ++ s := by
  induction s generalizing before piece skip with
  | nil =>
    obtain rfl := Nat.le_zero.1 short
    refine ⟨[], piece.reverse, rfl, ?_, by simp⟩
    rw [List.reverse_reverse]
    rfl
  | cons c s ih =>
    rw [charBefore_cons, List.cons_append]
    cases skip with
    | succ skip =>
      obtain rfl := fresh.resolve_left (Nat.succ_ne_zero skip)
      obtain ⟨front, last, e, e', sub⟩ :=
        ih (some c) [] (.inr rfl) (Nat.le_of_succ_le_succ short)
      exact ⟨front, last, e, e', sub.trans (List.suffix_cons c s)⟩
    | zero =>
      have here : p before (c :: (s ++ rest)) = p before (c :: s) := h.same before (c :: s)
      rw [Pattern.splitFrom, Pattern.splitFrom, here]
      split
      · next n covers =>
        have fits := Nat.le_of_succ_le_succ (h.within _ _ _ covers)
        obtain ⟨front, last, e, e', sub⟩ := ih (some c) [] (.inr rfl) fits
        refine ⟨piece.reverse :: front, last, congrArg _ e, congrArg _ e', ?_⟩
        exact (sub.trans (List.suffix_cons c s)).trans (List.suffix_append _ _)
      · obtain ⟨front, last, e, e', sub⟩ :=
          ih (some c) (c :: piece) (.inl rfl) (Nat.zero_le _)
        refine ⟨front, last, e, e', ?_⟩
        rwa [List.reverse_cons, List.append_assoc] at sub

theorem split (h : UnmovedBy rest p) (s : Text) : ∃ front last, p.split s = front ++ [last] ∧
    p.split (s ++ rest) = front ++ p.splitFrom (charBefore none s) last.reverse 0 rest ∧
    last <:+ s :=
  h.splitFrom none [] (.inl rfl) (Nat.zero_le _)

end UnmovedBy

end Pattern

end SqlReview
