import SqlReview.Proofs.Text.Occurrences

/-!
What stands in a part of a text. Where the part is cut out at the ends of words, a whole word of it
is one of the text, and a search in the part by itself finds what stands there first.
-/
namespace SqlReview

namespace Text

section Joined

variable {s t : Text} {c : Char}

/-- Of two texts that are put together the last piece of the one goes on with the first of the
other. -/
theorem cut_append {isMark : Char → Bool} {front others : List Text} {last first : Text}
    (hs : cut isMark s = front ++ [last]) (ht : cut isMark t = first :: others) :
    cut isMark (s ++ t) = front ++ (last ++ first) :: others := by
  induction s generalizing front last with
  | nil =>
    have alone : [] ++ [[]] = front ++ [last] := hs
    obtain ⟨rfl, same⟩ := List.append_inj' alone rfl
    obtain rfl := (List.cons.inj same).1
    exact ht
  | cons c s ih =>
    cases e : cut isMark s with
    | nil => exact absurd e (cut_ne_nil isMark s)
    | cons f fs =>
      rw [e] at ih
      rw [cut, e] at hs
      by_cases mark : isMark c = true
      · simp only [if_pos mark] at hs
        cases front with
        | nil => cases hs
        | cons g front =>
          obtain ⟨rfl, rest⟩ := List.cons.inj hs
          have marked := cut_append_mark (s := []) (t := s ++ t) mark
          rw [ih rest] at marked
          exact marked
      · simp only [if_neg mark] at hs
        rw [List.cons_append, cut]
        cases front with
        | nil =>
          obtain ⟨rfl, rfl⟩ := List.cons.inj hs
          rw [ih (show [f] = [] ++ [f] from rfl)]
          simp only [List.nil_append, if_neg mark, List.cons_append]
        | cons g front =>
          obtain ⟨rfl, rfl⟩ := List.cons.inj hs
          rw [ih (List.cons_append ..).symm]
          simp only [if_neg mark, List.cons_append]

theorem mem_of_mem_cut {isMark : Char → Bool} {piece : Text} (h : piece ∈ cut isMark s)
    (hc : c ∈ piece) : c ∈ s := by
  induction s generalizing piece with
  | nil =>
    obtain rfl : piece = [] := by simpa [cut] using h
    exact hc
  | cons d s ih =>
    obtain ⟨first, others, e⟩ := List.exists_cons_of_ne_nil (cut_ne_nil isMark s)
    rw [e] at ih
    simp only [cut, e] at h
    split at h
    · rcases List.mem_cons.1 h with rfl | h
      · cases hc
      · exact List.mem_cons_of_mem d (ih h hc)
    · rcases List.mem_cons.1 h with rfl | h
      · rcases List.mem_cons.1 hc with rfl | hc
        · exact List.mem_cons_self
        · exact List.mem_cons_of_mem d (ih List.mem_cons_self hc)
      · exact List.mem_cons_of_mem d (ih (List.mem_cons_of_mem first h) hc)

theorem mem_of_mem_words {w : Text} (h : w ∈ words s) (hc : c ∈ w) : c ∈ s :=
  mem_of_mem_cut (List.mem_filter.1 h).1 hc

theorem ne_nil_of_mem_words {w : Text} (h : w ∈ words s) : w ≠ [] := by
  simpa using (List.mem_filter.1 h).2

theorem mem_of_mem_trim (hc : c ∈ trim s) : c ∈ s := by
  obtain ⟨left, right, e, _⟩ := exists_trim s
  rw [e]
  exact List.mem_append_right _ (List.mem_append_left _ hc)

theorem mem_trim (hc : c ∈ s) (solid : isBlank c = false) : c ∈ trim s := by
  obtain ⟨left, right, e, blank, blank'⟩ := exists_trim s
  rw [e, List.mem_append, List.mem_append] at hc
  rcases hc with hc | hc | hc
  · rw [blank c hc] at solid
    cases solid
  · exact hc
  · rw [blank' c hc] at solid
    cases solid

theorem exists_trimRight (s : Text) : ∃ gap, s = trimRight s ++ gap ∧
    (∀ c ∈ gap, isBlank c = true) ∧ ∀ c ∈ (trimRight s).getLast?, isBlank c = false := by
  refine ⟨(s.reverse.takeWhile isBlank).reverse, ?_, fun c hc => ?_, fun c hc => ?_⟩
  · rw [trimRight, ← List.reverse_append, List.takeWhile_append_dropWhile, List.reverse_reverse]
  · exact List.all_eq_true.1 List.all_takeWhile c (List.mem_reverse.1 hc)
  · have head := List.head?_dropWhile_not isBlank s.reverse
    rw [trimRight, List.getLast?_reverse] at hc
    rw [Option.mem_def.1 hc] at head
    exact head

theorem words_of_blank (blank : ∀ c ∈ s, isBlank c = true) : words s = [] := by
  have none := words_gap_append (t := []) blank
  rw [List.append_nil] at none
  exact none

theorem words_append_of_head (s : Text) (head : ∀ c ∈ t.head?, isBlank c = true) :
    words (s ++ t) = words s ++ words t := by
  cases t with
  | nil =>
    rw [List.append_nil]
    exact (List.append_nil _).symm
  | cons b t =>
    have blank : ∀ c ∈ [b], isBlank c = true := List.forall_mem_singleton.2 (head b rfl)
    rw [← List.singleton_append, words_append_gap (List.cons_ne_nil b []) blank,
      words_gap_append blank]

theorem exists_word (s : Text) : (∀ c ∈ s, isBlank c = true) ∨
    ∃ gap w rest, s = gap ++ (w ++ rest) ∧ (∀ c ∈ gap, isBlank c = true) ∧ w ≠ [] ∧
      (∀ c ∈ w, isBlank c = false) ∧ ∀ c ∈ rest.head?, isBlank c = true := by
  cases h : s.dropWhile isBlank with
  | nil =>
    refine .inl fun c hc => ?_
    rw [← List.takeWhile_append_dropWhile (p := isBlank) (l := s), h, List.append_nil] at hc
    exact List.all_eq_true.1 List.all_takeWhile c hc
  | cons c t =>
    have solid := List.head?_dropWhile_not isBlank s
    have head := List.head?_dropWhile_not (fun c => !isBlank c) (c :: t)
    rw [h] at solid
    have solid : (!isBlank c) = true := by simpa using solid
    refine .inr ⟨s.takeWhile isBlank, (c :: t).takeWhile fun c => !isBlank c,
      (c :: t).dropWhile fun c => !isBlank c, ?_, List.all_eq_true.1 List.all_takeWhile, ?_,
      ?_, fun d hd => ?_⟩
    · rw [List.takeWhile_append_dropWhile, ← h, List.takeWhile_append_dropWhile]
    · rw [List.takeWhile_cons, if_pos solid]
      exact List.cons_ne_nil _ _
    · intro d hd
      simpa using List.all_eq_true.1 List.all_takeWhile d hd
    · rw [Option.mem_def.1 hd] at head
      simpa using head

end Joined

end Text

namespace Pattern

/-- A part of a text, between the text to its left and the text to its right, that is cut out at the
ends of words. -/
structure CutOut (left s right : Text) : Prop where
  start : inWord left.getLast? = false ∨ inWord s.head? = false
  stop : inWord s.getLast? = false ∨ inWord right.head? = false

def Absent (K : Text → Prop) (left s right : Text) : Prop :=
  ∀ x k y, s = x ++ (k ++ y) → ¬ Stands K (left ++ x) k (y ++ right)

structure IsFirst (K : Text → Prop) (left s right : Text) (o : Occurrence) : Prop where
  text : s = o.before ++ (o.covered ++ o.after)
  stands : Stands K (left ++ o.before) o.covered (o.after ++ right)
  first : ∀ x k y, s = x ++ (k ++ y) → Stands K (left ++ x) k (y ++ right) →
    o.before.length ≤ x.length

/-- A part is cut in two before the first text of the class, or not at all if there is none. -/
inductive UpToFirst (K : Text → Prop) (left s right : Text) : Text → Text → Prop
  | found {o : Occurrence} (first : IsFirst K left s right o) :
      UpToFirst K left s right o.before (o.covered ++ o.after)
  | whole (absent : Absent K left s right) : UpToFirst K left s right s []

section Alone

variable {p : Pattern} {K : Text → Prop} {left s right x k y : Text} {o : Occurrence}

theorem CutOut.whole (s : Text) : CutOut [] s [] := ⟨.inl rfl, .inr rfl⟩

theorem Finds.stands_iff (finds : Finds p K) (cut : CutOut left (x ++ (k ++ y)) right) :
    Stands K (left ++ x) k (y ++ right) ↔ Stands K x k y := by
  constructor
  · intro h
    exact ⟨inWord_getLast_of_append h.start, h.kind, inWord_head_of_append h.stop⟩
  · intro h
    have start := cut.start
    have stop := cut.stop
    refine ⟨inWord_getLast_append_eq h.start ?_, h.kind, inWord_head_append_eq h.stop ?_⟩
    · rintro rfl
      apply start.resolve_right
      rw [List.nil_append, inWord_head_append_of (finds.first h.kind)]
      exact Bool.noConfusion
    · rintro rfl
      apply stop.resolve_left
      rw [List.append_nil, inWord_getLast_append_of (finds.last h.kind)]
      exact Bool.noConfusion

theorem Finds.stands_iff_alone (finds : Finds p K) (cut : CutOut left s right)
    (e : s = x ++ (k ++ y)) :
    Stands K (left ++ x) k (y ++ right) ↔ Stands K ([] ++ x) k (y ++ []) := by
  subst e
  rw [finds.stands_iff cut, finds.stands_iff (.whole _)]

theorem CutOut.before {rest : Text} (cut : CutOut left (s ++ (k ++ rest)) right)
    (stands : Stands K (left ++ s) k (rest ++ right)) : CutOut left s (k ++ (rest ++ right)) where
  start := cut.start.imp_right inWord_head_of_append
  stop := .inl (inWord_getLast_of_append stands.start)

theorem CutOut.after {rest : Text} (cut : CutOut left (s ++ (k ++ rest)) right)
    (stands : Stands K (left ++ s) k (rest ++ right)) : CutOut (left ++ (s ++ k)) rest right where
  start := .inr (inWord_head_of_append stands.stop)
  stop := by
    have stop := cut.stop
    rw [← List.append_assoc] at stop
    exact stop.imp_left inWord_getLast_of_append

theorem Finds.absent_iff (finds : Finds p K) (cut : CutOut left s right) :
    Absent K left s right ↔ Absent K [] s [] := by
  constructor
  · exact fun h x k y e stands => h x k y e ((finds.stands_iff_alone cut e).2 stands)
  · exact fun h x k y e stands => h x k y e ((finds.stands_iff_alone cut e).1 stands)

theorem Finds.isFirst_iff (finds : Finds p K) (cut : CutOut left s right) :
    IsFirst K left s right o ↔ IsFirst K [] s [] o := by
  constructor
  · intro h
    refine ⟨h.text, (finds.stands_iff_alone cut h.text).1 h.stands, fun x k y e stands => ?_⟩
    exact h.first x k y e ((finds.stands_iff_alone cut e).2 stands)
  · intro h
    refine ⟨h.text, (finds.stands_iff_alone cut h.text).2 h.stands, fun x k y e stands => ?_⟩
    exact h.first x k y e ((finds.stands_iff_alone cut e).1 stands)

/-- A search in a text finds the first whole word of the class, if there is one. -/
theorem Finds.first?_spec (finds : Finds p K) (s : Text) :
    (p.first? s = none ∧ Absent K [] s []) ∨
      ∃ o, p.first? s = some o ∧ IsFirst K [] s [] o := by
  have search := finds.leftmost_occurrencesFrom [] s
  unfold first? occurrences
  cases found : p.occurrencesFrom ([] : Text).reverse 0 s with
  | nil =>
    rw [found] at search
    cases search with
    | done none =>
      refine .inl ⟨congrArg List.head? found, fun x k y e stands => none x k y e ?_⟩
      rwa [List.append_nil] at stands
  | cons o os =>
    rw [found] at search
    cases search with
    | next here first =>
      refine .inr ⟨_, congrArg List.head? found, rfl, ?_, fun x' k' y' e stands => ?_⟩
      · rwa [List.append_nil]
      · rw [List.append_nil] at stands
        exact first x' k' y' e stands

end Alone

section Ends

variable {K : Text → Prop} {left s right text rest : Text}

theorem UpToFirst.text_eq (h : UpToFirst K left s right text rest) : s = text ++ rest := by
  cases h with
  | found first => exact first.text
  | whole => exact (List.append_nil s).symm

theorem UpToFirst.stop (h : UpToFirst K left s right text rest) :
    inWord text.getLast? = false ∨ inWord rest.head? = false := by
  cases h with
  | found first => exact .inl (inWord_getLast_of_append first.stands.start)
  | whole => exact .inr rfl

end Ends

section Marked

variable {s t x k y : Text} {m : Char}

theorem exists_side_of_mark (free : m ∉ k) (filled : k ≠ [])
    (e : s ++ m :: t = x ++ (k ++ y)) :
    (∃ y', s = x ++ (k ++ y') ∧ y = y' ++ m :: t) ∨
      ∃ x', x = s ++ m :: x' ∧ t = x' ++ (k ++ y) := by
  rcases List.append_eq_append_iff.1 e with ⟨u, rfl, tail⟩ | ⟨u, rfl, tail⟩
  · cases u with
    | nil =>
      cases k with
      | nil => exact absurd rfl filled
      | cons c k =>
        have same := (List.cons.inj tail).1
        exact absurd (same ▸ List.mem_cons_self) free
    | cons c u =>
      obtain ⟨rfl, rest⟩ := List.cons.inj tail
      exact .inr ⟨u, rfl, rest⟩
  · rcases List.append_eq_append_iff.1 tail with ⟨v, rfl, rest⟩ | ⟨v, rfl, rest⟩
    · exact .inl ⟨v, by simp, rest⟩
    · cases v with
      | nil => exact .inl ⟨[], by simp, rest.symm⟩
      | cons c v =>
        have same := (List.cons.inj rest).1
        exact absurd (by simp [same]) free

end Marked

end Pattern

end SqlReview
