import SqlReview.Proofs.Text.Pattern

/-!
What the occurrences of a pattern are, told without the pattern. A pattern finds the texts of a
class that stand as whole words, and its occurrences are the leftmost of them that do not overlap.
-/
namespace SqlReview.Pattern

/-- A text of a class between two others, with no word that goes on over its ends. -/
structure Stands (K : Text → Prop) (left k right : Text) : Prop where
  start : inWord left.getLast? = false
  kind : K k
  stop : inWord right.head? = false

/-- The pattern covers the texts of a class where they stand as whole words, and nothing else. -/
structure Finds (p : Pattern) (K : Text → Prop) : Prop where
  covers_iff {before : Option Char} {k rest : Text} : p before (k ++ rest) = some k.length ↔
    inWord before = false ∧ K k ∧ inWord rest.head? = false
  within {before : Option Char} {s : Text} {n : Nat} (h : p before s = some n) : n ≤ s.length
  first {k : Text} (h : K k) : inWord k.head? = true
  last {k : Text} (h : K k) : inWord k.getLast? = true

inductive IsPhrase (first second : Text) : Text → Prop
  | words {run gap run' : Text} (spelled : isSpelling first run = true) (filled : gap ≠ [])
      (blank : ∀ c ∈ gap, Text.isBlank c = true) (spelled' : isSpelling second run' = true) :
      IsPhrase first second (run ++ (gap ++ run'))

/-- The leftmost texts of a class that stand as whole words after some text and do not overlap. -/
inductive Leftmost (K : Text → Prop) : (seen s : Text) → List Occurrence → Prop
  | done {seen s : Text}
      (none : ∀ x k y, s = x ++ (k ++ y) → ¬ Stands K (seen ++ x) k y) : Leftmost K seen s []
  | next {seen x k y : Text} {os : List Occurrence} (here : Stands K (seen ++ x) k y)
      (first : ∀ x' k' y', x ++ (k ++ y) = x' ++ (k' ++ y') → Stands K (seen ++ x') k' y' →
        x.length ≤ x'.length)
      (later : Leftmost K (seen ++ (x ++ k)) y os) :
      Leftmost K seen (x ++ (k ++ y)) (⟨seen ++ x, k, y⟩ :: os)

section Words

variable {w w' s run : Text}

theorem eq_of_writes {a b c : Char} (ha : Text.isCapital a = true) (hb : Text.isCapital b = true)
    (h : writes a c = true) (h' : writes b c = true) : a = b := by
  rw [Text.isCapital_iff] at ha hb
  simp only [writes, Bool.or_eq_true, Bool.and_eq_true, beq_iff_eq, ← Char.toNat_inj] at h h' ⊢
  have upper := Text.toNat_toUpper c
  split at upper
  · omega
  · omega

theorem eq_of_isSpelling (hw : ∀ c ∈ w, Text.isCapital c = true)
    (hw' : ∀ c ∈ w', Text.isCapital c = true) (h : isSpelling w run = true)
    (h' : isSpelling w' run = true) : w = w' := by
  have lengths : w.length = w'.length := by
    rw [length_of_isSpelling h, length_of_isSpelling h']
  have spelled : spells w run = true := (Bool.and_eq_true_iff.1 h).1
  have spelled' : spells w' run = true := (Bool.and_eq_true_iff.1 h').1
  clear h h'
  induction w generalizing w' run with
  | nil => exact (List.eq_nil_of_length_eq_zero lengths.symm).symm
  | cons a w ih =>
    cases w' with
    | nil => cases lengths
    | cons b w' =>
      cases run with
      | nil => cases spelled
      | cons c run =>
        rw [spells, Bool.and_eq_true] at spelled spelled'
        obtain ⟨ha, hw⟩ := List.forall_mem_cons.1 hw
        obtain ⟨hb, hw'⟩ := List.forall_mem_cons.1 hw'
        rw [eq_of_writes ha hb spelled.1 spelled'.1,
          ih hw hw' (Nat.succ.inj lengths) spelled.2 spelled'.2]

theorem isSpelling_take (hw : ∀ c ∈ w, Text.isCapital c = true) (h : spells w s = true) :
    isSpelling w (s.take w.length) = true := by
  rw [isSpelling, spells_take, h, List.length_take, Nat.min_eq_left (isWord_of_spells hw h).2]
  exact beq_self_eq_true w.length

theorem isWord_of_isSpelling (hw : ∀ c ∈ w, Text.isCapital c = true)
    (h : isSpelling w run = true) : ∀ c ∈ run, Text.isWord c = true := by
  have whole : run.take w.length = run := by
    rw [length_of_isSpelling h, List.take_length]
  have spelled : spells w run = true := (Bool.and_eq_true_iff.1 h).1
  have word := (isWord_of_spells hw spelled).1
  rwa [whole] at word

theorem ne_nil_of_isSpelling (hw : Capitals w) (h : isSpelling w run = true) : run ≠ [] := by
  rintro rfl
  exact hw.1 (List.eq_nil_of_length_eq_zero (length_of_isSpelling h))

theorem inWord_head_append_of (h : inWord run.head? = true) (s : Text) :
    inWord (run ++ s).head? = true := by
  cases run with
  | nil => cases h
  | cons c run => exact h

theorem inWord_getLast_append_of (h : inWord run.getLast? = true) (s : Text) :
    inWord (s ++ run).getLast? = true := by
  rw [List.getLast?_append]
  cases e : run.getLast? with
  | none =>
    rw [e] at h
    cases h
  | some c =>
    rw [e] at h
    exact h

theorem inWord_head_of_append (h : inWord (run ++ s).head? = false) : inWord run.head? = false := by
  rw [← Bool.not_eq_true] at h ⊢
  exact fun word => h (inWord_head_append_of word s)

theorem inWord_getLast_of_append (h : inWord (s ++ run).getLast? = false) :
    inWord run.getLast? = false := by
  rw [← Bool.not_eq_true] at h ⊢
  exact fun word => h (inWord_getLast_append_of word s)

theorem inWord_head_append_eq (h : inWord run.head? = false)
    (next : run = [] → inWord s.head? = false) : inWord (run ++ s).head? = false := by
  cases run with
  | nil => exact next rfl
  | cons c run => exact h

theorem inWord_getLast_append_eq (h : inWord run.getLast? = false)
    (last : run = [] → inWord s.getLast? = false) : inWord (s ++ run).getLast? = false := by
  rcases List.eq_nil_or_concat run with rfl | ⟨_, _, rfl⟩
  · rw [List.append_nil]
    exact last rfl
  · rw [List.concat_eq_append, ← List.append_assoc, List.getLast?_concat]
    rwa [List.concat_eq_append, List.getLast?_concat] at h

theorem inWord_ends_of_isSpelling (hw : Capitals w) (h : isSpelling w run = true) :
    inWord run.head? = true ∧ inWord run.getLast? = true := by
  have word := isWord_of_isSpelling hw.2 h
  have filled := ne_nil_of_isSpelling hw h
  rw [List.head?_eq_some_head filled, List.getLast?_eq_some_getLast filled]
  exact ⟨word _ (List.head_mem filled), word _ (List.getLast_mem filled)⟩

end Words

section Classes

variable {p q : Pattern} {w : Text} {K L : Text → Prop}

theorem Finds.covered (h : Finds p K) {before : Option Char} {s : Text} {n : Nat}
    (hn : p before s = some n) :
    inWord before = false ∧ K (s.take n) ∧ inWord (s.drop n).head? = false := by
  rw [← h.covers_iff, List.take_append_drop, List.length_take_of_le (h.within hn)]
  exact hn

theorem finds_word (hw : Capitals w) : Finds (word w) fun k => isSpelling w k = true where
  covers_iff {before k rest} := by
    constructor
    · intro h
      simp only [word, Option.ite_none_right_eq_some, Bool.and_eq_true, Bool.not_eq_true'] at h
      obtain ⟨⟨⟨alone, spelled⟩, after⟩, hn⟩ := h
      have length : w.length = k.length := Option.some.inj hn
      have spelled := isSpelling_take hw.2 spelled
      rw [length, List.take_left' rfl] at spelled
      rw [length, List.drop_left' rfl] at after
      exact ⟨alone, spelled, after⟩
    · rintro ⟨alone, spelled, after⟩
      exact word_covers alone spelled after
  within {before s n} h := by
    simp only [word, Option.ite_none_right_eq_some, Bool.and_eq_true] at h
    rw [← Option.some.inj h.2]
    exact (isWord_of_spells hw.2 h.1.1.2).2
  first h := (inWord_ends_of_isSpelling hw h).1
  last h := (inWord_ends_of_isSpelling hw h).2

theorem finds_phrase {second : Text} (hw : Capitals w) (hs : Capitals second) :
    Finds (phrase w second) (IsPhrase w second) where
  covers_iff {before k rest} := by
    constructor
    · intro h
      simp only [phrase, Option.ite_none_right_eq_some, Bool.and_eq_true, Bool.not_eq_true',
        bne_iff_ne] at h
      obtain ⟨⟨spelled, gap⟩, ⟨⟨alone, spelled'⟩, after⟩, hn⟩ := h
      have length := Option.some.inj hn
      have parts : k = (k ++ rest).take _ := (List.take_left' length.symm).symm
      rw [List.take_add, List.take_add, List.append_assoc] at parts
      rw [List.drop_drop, length, List.drop_left' rfl] at after
      rw [parts]
      exact ⟨alone, .words (isSpelling_take hw.2 spelled) (take_blankCount_ne_nil gap)
        (isBlank_take_blankCount _) (isSpelling_take hs.2 spelled'), after⟩
    · rintro ⟨alone, @⟨run, gap, run', spelled, filled, blank, spelled'⟩, after⟩
      have solid : ∀ c ∈ run'.head?, Text.isBlank c = false := by
        intro c hc
        have word := isWord_of_isSpelling hs.2 spelled' c (List.mem_of_mem_head? hc)
        exact Text.not_isBlank_of_isWord word
      rw [List.append_assoc, List.append_assoc,
        phrase_covers alone spelled filled blank spelled' solid (ne_nil_of_isSpelling hs spelled')
          after, List.length_append, List.length_append, Nat.add_assoc]
  within {before s n} h := by
    simp only [phrase, Option.ite_none_right_eq_some, Bool.and_eq_true] at h
    obtain ⟨_, ⟨⟨_, spelled⟩, _⟩, hn⟩ := h
    have inside := (isWord_of_spells hs.2 spelled).2
    have pos := List.length_pos_iff.2 hs.1
    rw [List.length_drop] at inside
    rw [← Option.some.inj hn]
    omega
  first := by
    rintro k ⟨spelled, _, _, _⟩
    exact inWord_head_append_of (inWord_ends_of_isSpelling hw spelled).1 _
  last := by
    rintro k ⟨_, _, _, spelled⟩
    rw [← List.append_assoc]
    exact inWord_getLast_append_of (inWord_ends_of_isSpelling hs spelled).2 _

theorem oneOf_singleton (p : Pattern) : oneOf [p] = p := by
  funext before s
  exact List.findSome?_singleton

theorem Starts.oneOf_cons {ps : List Pattern} {ws : List Text} (hp : Starts p ws)
    (hps : Starts (oneOf ps) ws) : Starts (oneOf (p :: ps)) ws := by
  intro before s n hn
  cases e : p before s with
  | none =>
    rw [oneOf_of_none e] at hn
    exact hps before s n hn
  | some m =>
    rw [oneOf_of_some e] at hn
    exact hp before s n (e.trans hn)

/-- The texts of two patterns that never hold at one place. -/
theorem Finds.oneOf_cons {ps : List Pattern} (hp : Finds p K) (hps : Finds (oneOf ps) L)
    (apart : ∀ before s, (p before s).isSome → oneOf ps before s = none) :
    Finds (oneOf (p :: ps)) fun k => K k ∨ L k where
  covers_iff {before k rest} := by
    cases e : p before (k ++ rest) with
    | none =>
      rw [oneOf_of_none e, hps.covers_iff]
      have other (start : inWord before = false) (stop : inWord rest.head? = false) : ¬ K k := by
        intro kind
        rw [hp.covers_iff.2 ⟨start, kind, stop⟩] at e
        cases e
      constructor
      · exact fun ⟨start, kind, stop⟩ => ⟨start, .inr kind, stop⟩
      · exact fun ⟨start, kind, stop⟩ => ⟨start, kind.resolve_left (other start stop), stop⟩
    | some n =>
      have none := apart _ _ (Option.isSome_of_mem e)
      have other (start : inWord before = false) (stop : inWord rest.head? = false) : ¬ L k := by
        intro kind
        rw [hps.covers_iff.2 ⟨start, kind, stop⟩] at none
        cases none
      rw [oneOf_of_some e, ← e, hp.covers_iff]
      constructor
      · exact fun ⟨start, kind, stop⟩ => ⟨start, .inl kind, stop⟩
      · exact fun ⟨start, kind, stop⟩ => ⟨start, kind.resolve_right (other start stop), stop⟩
  within {before s n} h := by
    cases e : p before s with
    | none =>
      rw [oneOf_of_none e] at h
      exact hps.within h
    | some m =>
      rw [oneOf_of_some e] at h
      exact hp.within (e.trans h)
  first h := h.elim hp.first hps.first
  last h := h.elim hp.last hps.last

theorem Starts.apart {ws ws' : List Text} (hp : Starts p ws) (hq : Starts q ws')
    (capital : ∀ w ∈ ws ++ ws', Capitals w) (other : ∀ w ∈ ws, w ∉ ws')
    (before : Option Char) (s : Text) (h : (p before s).isSome) : q before s = none := by
  obtain ⟨n, hn⟩ := Option.isSome_iff_exists.1 h
  obtain ⟨_, _, _, w, hw, spelled⟩ := hp _ _ _ hn
  rw [Option.eq_none_iff_forall_ne_some]
  intro m hm
  obtain ⟨_, _, _, w', hw', spelled'⟩ := hq _ _ _ hm
  have same : w = w' := eq_of_isSpelling (capital w (List.mem_append_left _ hw)).2
    (capital w' (List.mem_append_right _ hw')).2 spelled spelled'
  exact other w hw (same ▸ hw')

end Classes

section Leftmost

variable {p : Pattern} {K : Text → Prop} {seen s x k y : Text} {os : List Occurrence}

theorem Finds.ne_nil (h : Finds p K) (kind : K k) : k ≠ [] := by
  rintro rfl
  cases h.first kind

theorem exists_first (filled : ∀ k, K k → k ≠ []) (seen s : Text) :
    (∀ x k y, s = x ++ (k ++ y) → ¬ Stands K (seen ++ x) k y) ∨
      ∃ x k y, s = x ++ (k ++ y) ∧ Stands K (seen ++ x) k y ∧
        ∀ x' k' y', s = x' ++ (k' ++ y') → Stands K (seen ++ x') k' y' → x.length ≤ x'.length := by
  induction s generalizing seen with
  | nil =>
    refine .inl fun x k y e stands => filled k stands.kind ?_
    exact (List.append_eq_nil_iff.1 (List.append_eq_nil_iff.1 e.symm).2).1
  | cons c s ih =>
    by_cases here : ∃ k y, c :: s = k ++ y ∧ Stands K (seen ++ []) k y
    · obtain ⟨k, y, e, stands⟩ := here
      exact .inr ⟨[], k, y, e, stands, fun _ _ _ _ _ => Nat.zero_le _⟩
    · have further {x k y : Text} (e : c :: s = x ++ (k ++ y)) (stands : Stands K (seen ++ x) k y) :
          ∃ x', x = c :: x' ∧ s = x' ++ (k ++ y) ∧ Stands K (seen ++ [c] ++ x') k y := by
        cases x with
        | nil => exact absurd ⟨k, y, e, stands⟩ here
        | cons d x' =>
          obtain ⟨rfl, rfl⟩ := List.cons.inj e
          refine ⟨x', rfl, rfl, ?_⟩
          rwa [List.append_assoc, List.singleton_append]
      rcases ih (seen ++ [c]) with none | ⟨x, k, y, e, stands, first⟩
      · refine .inl fun x k y e stands => ?_
        obtain ⟨x', rfl, e, stands⟩ := further e stands
        exact none x' k y e stands
      · rw [List.append_assoc, List.singleton_append] at stands
        refine .inr ⟨c :: x, k, y, congrArg (c :: ·) e, stands, fun x' k' y' e' stands' => ?_⟩
        obtain ⟨x', rfl, e', stands'⟩ := further e' stands'
        exact Nat.succ_le_succ (first x' k' y' e' stands')

theorem Finds.clear (h : Finds p K) {part rest : Text}
    (first : ∀ x k y, part ++ rest = x ++ (k ++ y) → Stands K (seen ++ x) k y →
      part.length ≤ x.length) : Clear p seen.getLast? part rest := by
  induction part generalizing seen with
  | nil => trivial
  | cons c part ih =>
    constructor
    · rw [Option.eq_none_iff_forall_ne_some]
      intro n hn
      obtain ⟨start, kind, stop⟩ := h.covered hn
      have none := first [] _ _ (List.take_append_drop n _).symm
        ⟨by rwa [List.append_nil], kind, stop⟩
      exact Nat.not_succ_le_zero _ none
    · have later : Clear p (seen ++ [c]).getLast? part rest := by
        refine ih fun x k y e stands => ?_
        rw [List.append_assoc, List.singleton_append] at stands
        exact Nat.le_of_succ_le_succ (first (c :: x) k y (congrArg (c :: ·) e) stands)
      rwa [List.getLast?_concat] at later

theorem Finds.occurrencesFrom_none (h : Finds p K)
    (none : ∀ x k y, s = x ++ (k ++ y) → ¬ Stands K (seen ++ x) k y) :
    p.occurrencesFrom seen.reverse 0 s = [] := by
  have clear : Clear p seen.getLast? s [] := by
    refine h.clear fun x k y e stands => ?_
    rw [List.append_nil] at e
    exact absurd stands (none x k y e)
  rw [← List.head?_reverse] at clear
  have all := occurrencesFrom_clear clear
  rw [List.append_nil] at all
  exact all

theorem Finds.occurrencesFrom_next (h : Finds p K) (here : Stands K (seen ++ x) k y)
    (first : ∀ x' k' y', x ++ (k ++ y) = x' ++ (k' ++ y') → Stands K (seen ++ x') k' y' →
      x.length ≤ x'.length) :
    p.occurrencesFrom seen.reverse 0 (x ++ (k ++ y)) =
      ⟨seen ++ x, k, y⟩ :: p.occurrencesFrom (seen ++ (x ++ k)).reverse 0 y := by
  have clear := h.clear first
  have covers : p (x.reverse ++ seen.reverse).head? (k ++ y) = some k.length := by
    rw [← List.reverse_append, List.head?_reverse]
    exact h.covers_iff.2 ⟨here.start, here.kind, here.stop⟩
  rw [← List.head?_reverse] at clear
  rw [occurrencesFrom_clear clear, occurrencesFrom_covered (h.ne_nil here.kind) covers]
  simp

theorem Finds.leftmost_occurrencesFrom (h : Finds p K) (seen s : Text) :
    Leftmost K seen s (p.occurrencesFrom seen.reverse 0 s) := by
  rcases exists_first (fun _ => h.ne_nil) seen s with none | ⟨x, k, y, e, here, first⟩
  · rw [h.occurrencesFrom_none none]
    exact .done none
  · subst e
    rw [h.occurrencesFrom_next here first]
    have shorter : y.length < (x ++ (k ++ y)).length := by
      have := List.length_pos_iff.2 (h.ne_nil here.kind)
      simp only [List.length_append]
      omega
    exact .next here first (h.leftmost_occurrencesFrom _ y)
termination_by s.length

theorem Finds.occurrencesFrom_of_leftmost (h : Finds p K) (leftmost : Leftmost K seen s os) :
    p.occurrencesFrom seen.reverse 0 s = os := by
  induction leftmost with
  | done none => exact h.occurrencesFrom_none none
  | next here first _ ih => rw [h.occurrencesFrom_next here first, ih]

theorem Leftmost.stands (h : Leftmost K seen s os) :
    ∀ o ∈ os, Stands K o.before o.covered o.after := by
  induction h with
  | done => exact fun _ ho => nomatch ho
  | next here _ _ ih => exact List.forall_mem_cons.2 ⟨here, ih⟩

/-- The occurrences of a pattern are the leftmost ones of the texts that it finds. -/
theorem Finds.leftmost_iff (h : Finds p K) : Leftmost K [] s os ↔ p.occurrences s = os := by
  constructor
  · exact h.occurrencesFrom_of_leftmost
  · rintro rfl
    exact h.leftmost_occurrencesFrom [] s

end Leftmost

end SqlReview.Pattern
