import SqlReview.Proofs.Query.Clauses
import SqlReview.Proofs.Query.JoinScope
import SqlReview.Proofs.Text.Parts
import SqlReview.Query.Condition

/-!
The conditions of any text. The WHERE clause ends at the next clause that can follow it; its whole
words AND and OR cut it into pieces, and what is left of a piece without the blanks around it is a
condition, unless there is nothing left.
-/
namespace SqlReview.Query

open Sql
open Pattern (Stands Finds Starts Absent IsFirst UpToFirst CutOut inWord isSpelling)

section Clause

variable {p q : Pattern} {K L : Text → Prop} {left s right query : Text}

/-- The text between the first keyword of one class and the first of another after it. -/
structure IsClause (K L : Text → Prop) (query : Text) (o : Occurrence) (clause rest : Text) :
    Prop where
  opening : IsFirst K [] query [] o
  ending : UpToFirst L (o.before ++ o.covered) o.after [] clause rest

theorem upTo_spec (finds : Finds q L) (cut : CutOut left s []) :
    ∃ rest, UpToFirst L left s [] (upTo q s) rest := by
  unfold upTo
  rcases finds.first?_spec s with ⟨none, absent⟩ | ⟨o, found, first⟩
  · rw [none]
    exact ⟨_, .whole ((finds.absent_iff cut).2 absent)⟩
  · rw [found]
    exact ⟨_, .found ((finds.isFirst_iff cut).2 first)⟩

namespace IsClause

variable {o : Occurrence} {clause rest : Text}

theorem cutOut (h : IsClause K L query o clause rest) :
    CutOut (o.before ++ o.covered) clause rest where
  start := by
    have stop := h.opening.stands.stop
    rw [List.append_nil, h.ending.text_eq] at stop
    exact .inr (Pattern.inWord_head_of_append stop)
  stop := h.ending.stop

end IsClause

theorem clause_spec (opening : Finds p K) (ending : Finds q L) (query : Text) :
    (p.first? query = none ∧ Absent K [] query []) ∨
      ∃ o rest, p.first? query = some o ∧ IsClause K L query o (upTo q o.after) rest := by
  rcases opening.first?_spec query with none | ⟨o, found, first⟩
  · exact .inl none
  · have stop := first.stands.stop
    rw [List.append_nil] at stop
    have cut : CutOut (o.before ++ o.covered) o.after [] := ⟨.inr stop, .inr rfl⟩
    obtain ⟨rest, upTo⟩ := upTo_spec ending cut
    exact .inr ⟨o, rest, found, first, upTo⟩

end Clause

section Keywords

def IsWhere (k : Text) : Prop := isSpelling "WHERE" k = true

def IsConditionEnd (k : Text) : Prop :=
  Pattern.IsPhrase "GROUP" "BY" k ∨ Pattern.IsPhrase "ORDER" "BY" k ∨ isSpelling "LIMIT" k = true

def IsConnective (k : Text) : Prop := isSpelling "AND" k = true ∨ isSpelling "OR" k = true

theorem finds_where : Finds (.word "WHERE") IsWhere := (finds_keyword (by decide)).2

theorem finds_conditionEnd : Finds conditionEnd IsConditionEnd := by
  have limit := finds_keyword (w := "LIMIT") (by decide)
  rw [← Pattern.oneOf_singleton (.word "LIMIT")] at limit
  have order := finds_keywords (finds_keywords_by (w := "ORDER") (by decide)) limit (by decide)
    (by decide)
  exact (finds_keywords (finds_keywords_by (w := "GROUP") (by decide)) order (by decide)
    (by decide)).2

theorem finds_connector : Finds connector IsConnective := by
  have or_ := finds_keyword (w := "OR") (by decide)
  rw [← Pattern.oneOf_singleton (.word "OR")] at or_
  exact (finds_keywords (finds_keyword (w := "AND") (by decide)) or_ (by decide) (by decide)).2

end Keywords

/-- What is left of a piece without the blanks around it: a condition, or nothing at all. -/
inductive Leaves : Text → List Text → Prop
  | nothing {s : Text} (blank : ∀ c ∈ s, Text.isBlank c = true) : Leaves s []
  | condition {before c after : Text} (blank : ∀ x ∈ before, Text.isBlank x = true)
      (filled : c ≠ []) (tight : Text.Tight c) (blank' : ∀ x ∈ after, Text.isBlank x = true) :
      Leaves (before ++ (c ++ after)) [c]

/-- The conditions of a part of a text, between the text to its left and the text to its right. The
whole words that connect cut it into pieces without any. -/
inductive Conjoined : (left s right : Text) → List Text → Prop
  | last {left s right : Text} {cs : List Text} (bare : Absent IsConnective left s right)
      (leaves : Leaves s cs) : Conjoined left s right cs
  | next {left piece k rest right : Text} {cs cs' : List Text}
      (bare : Absent IsConnective left piece (k ++ (rest ++ right))) (leaves : Leaves piece cs)
      (connective : Stands IsConnective (left ++ piece) k (rest ++ right))
      (later : Conjoined (left ++ (piece ++ k)) rest right cs') :
      Conjoined left (piece ++ (k ++ rest)) right (cs ++ cs')

section Pieces

variable {left s right piece k rest : Text} {cs : List Text}

theorem isWord_of_isConnective (h : IsConnective k) : ∀ c ∈ k, Text.isWord c = true := by
  rcases h with h | h
  · exact Pattern.isWord_of_isSpelling (capitals_of_reserved "AND" (by decide)).2 h
  · exact Pattern.isWord_of_isSpelling (capitals_of_reserved "OR" (by decide)).2 h

theorem leaves_trimmedPieces (s : Text) : Leaves s (trimmedPieces [s]) := by
  obtain ⟨before, after, e, blank, blank'⟩ := Text.exists_trim s
  unfold trimmedPieces
  rw [List.map_singleton]
  cases h : Text.trim s with
  | nil =>
    rw [h, List.nil_append] at e
    refine .nothing fun c hc => ?_
    rw [e] at hc
    exact (List.mem_append.1 hc).elim (blank c) (blank' c)
  | cons c t =>
    have tight := Text.tight_trim s
    rw [h] at e tight
    have leaves : Leaves (before ++ (c :: t ++ after)) [c :: t] :=
      .condition blank (List.cons_ne_nil c t) tight blank'
    rw [← e] at leaves
    exact leaves

theorem trimmedPieces_of_leaves (h : Leaves s cs) : trimmedPieces [s] = cs := by
  cases h with
  | nothing blank =>
    have trimmed := Text.trim_padded blank (s := []) ⟨by simp, by simp⟩ (List.forall_mem_nil _)
    rw [List.append_nil, List.append_nil] at trimmed
    unfold trimmedPieces
    rw [List.map_singleton, trimmed]
    rfl
  | @condition before c after blank filled tight blank' =>
    unfold trimmedPieces
    rw [List.map_singleton, Text.trim_padded blank tight blank', List.filter_cons, if_pos]
    · rfl
    · rwa [Bool.not_eq_true', List.isEmpty_eq_false_iff]

theorem inWord_getLast_of_blank (blank : ∀ c ∈ s, Text.isBlank c = true) :
    inWord s.getLast? = false := by
  rw [← List.head?_reverse]
  exact inWord_head_of_marks fun c hc => not_isWord_of_blank blank c (List.mem_reverse.1 hc)

theorem cutOut_blank (blank : ∀ c ∈ left, Text.isBlank c = true)
    (blank' : ∀ c ∈ right, Text.isBlank c = true) : CutOut left s right where
  start := .inl (inWord_getLast_of_blank blank)
  stop := .inr (inWord_head_of_marks (not_isWord_of_blank blank'))

/-- A connective does not begin in a piece that one stands after. -/
theorem length_le_of_bare (bare : Absent IsConnective left piece (k ++ rest))
    (connective : Stands IsConnective (left ++ piece) k rest) (x k' y : Text)
    (e : piece ++ (k ++ rest) = x ++ (k' ++ y)) (stands : Stands IsConnective (left ++ x) k' y) :
    piece.length ≤ x.length := by
  apply Nat.le_of_not_lt
  intro shorter
  obtain ⟨t, rfl⟩ := List.prefix_of_prefix_length_le ⟨_, e.symm⟩ ⟨_, rfl⟩ (Nat.le_of_lt shorter)
  have filled : t ≠ [] := by
    rintro rfl
    simp at shorter
  rw [List.append_assoc, List.append_cancel_left_eq] at e
  rcases List.append_eq_append_iff.1 e with ⟨u, rfl, tail⟩ | ⟨u, rfl, rfl⟩
  · -- the end of the piece is in a word
    have last : inWord t.getLast? = true := by
      rw [List.getLast?_eq_some_getLast filled]
      exact isWord_of_isConnective stands.kind _
        (List.mem_append_left _ (List.getLast_mem filled))
    have start := connective.start
    rw [← List.append_assoc, Pattern.inWord_getLast_append_of last] at start
    cases start
  · refine bare x k' u rfl ?_
    exact ⟨stands.start, stands.kind, stands.stop⟩

end Pieces

section Cutting

variable {left s right piece k rest : Text} {cs : List Text}

theorem charBefore_getLast? (left s : Text) :
    Pattern.charBefore left.getLast? s = (left ++ s).getLast? := List.getLast?_append.symm

theorem splitFrom_bare
    (bare : ∀ x k y, piece = x ++ (k ++ y) → ¬ Stands IsConnective (left ++ x) k y) :
    connector.splitFrom left.getLast? [] 0 piece = [piece] := by
  have clear : Pattern.Clear connector left.getLast? piece [] := by
    refine finds_connector.clear fun x k y e stands => ?_
    rw [List.append_nil] at e
    exact absurd stands (bare x k y e)
  have cut : connector.splitFrom left.getLast? [] 0 (piece ++ []) = _ :=
    Pattern.splitFrom_clear clear
  rw [List.append_nil, List.append_nil, Pattern.splitFrom, List.reverse_reverse] at cut
  exact cut

theorem splitFrom_next (here : Stands IsConnective (left ++ piece) k rest)
    (first : ∀ x k' y, piece ++ (k ++ rest) = x ++ (k' ++ y) →
      Stands IsConnective (left ++ x) k' y → piece.length ≤ x.length) :
    connector.splitFrom left.getLast? [] 0 (piece ++ (k ++ rest)) =
      piece :: connector.splitFrom (left ++ (piece ++ k)).getLast? [] 0 rest := by
  have covers : connector (Pattern.charBefore left.getLast? piece) (k ++ rest) =
      some k.length := by
    rw [charBefore_getLast?]
    exact finds_connector.covers_iff.2 ⟨here.start, here.kind, here.stop⟩
  rw [Pattern.splitFrom_clear (finds_connector.clear first),
    Pattern.splitFrom_covered (finds_connector.ne_nil here.kind) covers, List.append_nil,
    List.reverse_reverse, charBefore_getLast?, charBefore_getLast?, List.append_assoc]

theorem conjoined_splitFrom (left s : Text) :
    Conjoined left s [] (trimmedPieces (connector.splitFrom left.getLast? [] 0 s)) := by
  rcases Pattern.exists_first (fun _ => finds_connector.ne_nil) left s with
    none | ⟨x, k, y, rfl, here, first⟩
  · rw [splitFrom_bare none]
    refine .last (fun x k y e stands => none x k y e ?_) (leaves_trimmedPieces s)
    rwa [List.append_nil] at stands
  · have shorter : y.length < (x ++ (k ++ y)).length := by
      have := List.length_pos_iff.2 (finds_connector.ne_nil here.kind)
      simp only [List.length_append]
      omega
    have later := conjoined_splitFrom (left ++ (x ++ k)) y
    rw [splitFrom_next here first, ← List.singleton_append, trimmedPieces_append]
    rw [← List.append_nil y] at here
    refine .next (fun x' k' y' e stands => ?_) (leaves_trimmedPieces x) here later
    -- what stands in the piece would come first
    have whole : x ++ (k ++ y) = x' ++ (k' ++ (y' ++ (k ++ y))) := by
      rw [e]
      simp
    rw [List.append_nil] at stands
    have late := first _ _ _ whole stands
    have inside := congrArg List.length e
    have := List.length_pos_iff.2 (finds_connector.ne_nil stands.kind)
    simp only [List.length_append] at inside
    omega
termination_by s.length

theorem splitFrom_of_conjoined (h : Conjoined left s right cs) (end_ : right = []) :
    trimmedPieces (connector.splitFrom left.getLast? [] 0 s) = cs := by
  induction h with
  | last bare leaves =>
    subst end_
    have none := splitFrom_bare fun x k y e stands => bare x k y e (by rwa [List.append_nil])
    rw [none, trimmedPieces_of_leaves leaves]
  | next bare leaves connective _ ih =>
    subst end_
    rw [List.append_nil] at bare connective
    rw [splitFrom_next connective (length_le_of_bare bare connective), ← List.singleton_append,
      trimmedPieces_append, trimmedPieces_of_leaves leaves, ih rfl]

end Cutting

section Context

variable {left s right k g left' right' : Text} {cs : List Text}

theorem Conjoined.congr (h : Conjoined left s right cs) (cut : CutOut left s right)
    (cut' : CutOut left' s right') : Conjoined left' s right' cs := by
  induction h generalizing left' with
  | last bare leaves =>
    exact .last ((finds_connector.absent_iff cut').2 ((finds_connector.absent_iff cut).1 bare))
      leaves
  | next bare leaves connective later ih =>
    have here := (finds_connector.stands_iff cut').2 ((finds_connector.stands_iff cut).1 connective)
    have before := cut.before connective
    have before' := cut'.before here
    have bare' := (finds_connector.absent_iff before').2 ((finds_connector.absent_iff before).1 bare)
    exact .next bare' leaves here (ih (cut.after connective) (cut'.after here))

theorem exists_after_blank {x y : Text} (blank : ∀ c ∈ g, Text.isBlank c = true)
    (word : inWord k.head? = true) (e : g ++ s = x ++ (k ++ y)) :
    ∃ t, x = g ++ t ∧ s = t ++ (k ++ y) := by
  rcases List.append_eq_append_iff.1 e with ⟨t, rfl, tail⟩ | ⟨t, rfl, tail⟩
  · exact ⟨t, rfl, tail⟩
  · cases t with
    | nil => exact ⟨[], by simp, tail.symm⟩
    | cons c t =>
      have mark := Text.not_isWord_of_isBlank (blank c (by simp))
      have first : inWord (c :: t ++ s).head? = true := tail ▸ Pattern.inWord_head_append_of word y
      exact absurd first (by simp [inWord, mark])

theorem exists_before_blank {x y : Text} (blank : ∀ c ∈ g, Text.isBlank c = true)
    (word : inWord k.getLast? = true) (e : s ++ g = x ++ (k ++ y)) :
    ∃ t, y = t ++ g ∧ s = x ++ (k ++ t) := by
  rw [← List.append_assoc] at e
  rcases List.append_eq_append_iff.1 e with ⟨t, tail, rfl⟩ | ⟨t, rfl, tail⟩
  · rcases List.eq_nil_or_concat t with rfl | ⟨t, c, rfl⟩
    · exact ⟨[], rfl, by simpa using tail.symm⟩
    · rw [List.concat_eq_append] at tail blank
      have mark := Text.not_isWord_of_isBlank (blank c (by simp))
      have last : inWord (s ++ (t ++ [c])).getLast? = true :=
        tail ▸ Pattern.inWord_getLast_append_of word x
      rw [← List.append_assoc, List.getLast?_concat] at last
      exact absurd last (by simp [inWord, mark])
  · exact ⟨t, tail, List.append_assoc ..⟩

theorem absent_of_blank (blank : ∀ c ∈ s, Text.isBlank c = true) :
    Absent IsConnective left s right := by
  intro x k y e stands
  rw [← List.append_nil s] at e
  obtain ⟨t, -, none⟩ := exists_after_blank blank (finds_connector.first stands.kind) e
  have empty := (List.append_eq_nil_iff.1 (List.append_eq_nil_iff.1 none.symm).2).1
  exact finds_connector.ne_nil stands.kind empty

theorem absent_blank_append (blank : ∀ c ∈ g, Text.isBlank c = true)
    (bare : Absent IsConnective (left ++ g) s right) : Absent IsConnective left (g ++ s) right := by
  intro x k y e stands
  obtain ⟨t, rfl, tail⟩ := exists_after_blank blank (finds_connector.first stands.kind) e
  rw [← List.append_assoc] at stands
  exact bare t k y tail stands

theorem absent_append_blank (blank : ∀ c ∈ g, Text.isBlank c = true)
    (bare : Absent IsConnective left s (g ++ right)) : Absent IsConnective left (s ++ g) right := by
  intro x k y e stands
  obtain ⟨t, rfl, tail⟩ := exists_before_blank blank (finds_connector.last stands.kind) e
  rw [List.append_assoc] at stands
  exact bare x k t tail stands

theorem Leaves.blank_append (h : Leaves s cs) (blank : ∀ c ∈ g, Text.isBlank c = true) :
    Leaves (g ++ s) cs := by
  cases h with
  | nothing blank' => exact .nothing (List.forall_mem_append.2 ⟨blank, blank'⟩)
  | condition blank' filled tight blank'' =>
    rw [← List.append_assoc]
    exact .condition (List.forall_mem_append.2 ⟨blank, blank'⟩) filled tight blank''

theorem Leaves.append_blank (h : Leaves s cs) (blank : ∀ c ∈ g, Text.isBlank c = true) :
    Leaves (s ++ g) cs := by
  cases h with
  | nothing blank' => exact .nothing (List.forall_mem_append.2 ⟨blank', blank⟩)
  | condition blank' filled tight blank'' =>
    rw [List.append_assoc, List.append_assoc]
    exact .condition blank' filled tight (List.forall_mem_append.2 ⟨blank'', blank⟩)

namespace Conjoined

theorem blank_append (h : Conjoined (left ++ g) s right cs)
    (blank : ∀ c ∈ g, Text.isBlank c = true) : Conjoined left (g ++ s) right cs := by
  cases h with
  | last bare leaves => exact .last (absent_blank_append blank bare) (leaves.blank_append blank)
  | next bare leaves connective later =>
    rw [List.append_assoc left] at connective later
    rw [← List.append_assoc g] at later
    rw [← List.append_assoc g]
    exact .next (absent_blank_append blank bare) (leaves.blank_append blank) connective later

theorem append_blank {end_ : Text} (h : Conjoined left s end_ cs) (e : end_ = g ++ right)
    (blank : ∀ c ∈ g, Text.isBlank c = true) : Conjoined left (s ++ g) right cs := by
  induction h with
  | last bare leaves =>
    subst e
    exact .last (absent_append_blank blank bare) (leaves.append_blank blank)
  | @next _ _ _ rest _ _ _ bare leaves connective _ ih =>
    subst e
    rw [← List.append_assoc rest] at bare connective
    rw [List.append_assoc, List.append_assoc]
    exact .next bare leaves connective (ih rfl)

theorem padded {before after : Text} (h : Conjoined [] s [] cs)
    (blank : ∀ c ∈ before, Text.isBlank c = true) (blank' : ∀ c ∈ after, Text.isBlank c = true) :
    Conjoined [] (before ++ (s ++ after)) [] cs := by
  have inside : Conjoined ([] ++ before) s after cs :=
    h.congr (.whole s) (cutOut_blank blank blank')
  exact (inside.append_blank (List.append_nil after).symm blank').blank_append blank

end Conjoined

/-- The conditions of a clause are what its connectives cut it into. -/
theorem conjoined_iff (cut : CutOut left s right) : Conjoined left s right cs ↔
    trimmedPieces (connector.split (Text.trim s)) = cs := by
  obtain ⟨before, after, e, blank, blank'⟩ := Text.exists_trim s
  have trimmed := (conjoined_splitFrom [] (Text.trim s)).padded blank blank'
  rw [← e] at trimmed
  constructor
  · intro h
    rw [← splitFrom_of_conjoined (h.congr cut (.whole s)) rfl]
    exact (splitFrom_of_conjoined trimmed rfl).symm
  · rintro rfl
    exact trimmed.congr (.whole s) cut

end Context

section Conditions

variable {left s right : Text} {cs : List Text}

theorem Conjoined.forall_mem (h : Conjoined left s right cs) (cut : CutOut left s right) :
    ∀ c ∈ cs, c ≠ [] ∧ Text.Tight c ∧ Absent IsConnective [] c [] := by
  have single {left s right : Text} {cs : List Text} (leaves : Leaves s cs)
      (bare : Absent IsConnective left s right) (cut : CutOut left s right) :
      ∀ c ∈ cs, c ≠ [] ∧ Text.Tight c ∧ Absent IsConnective [] c [] := by
    cases leaves with
    | nothing => exact List.forall_mem_nil _
    | @condition before c after blank filled tight blank' =>
      rw [List.forall_mem_singleton]
      refine ⟨filled, tight, ?_⟩
      rw [finds_connector.absent_iff cut] at bare
      rw [← finds_connector.absent_iff (cutOut_blank blank blank')]
      rintro x k y rfl stands
      refine bare (before ++ x) k (y ++ after) (by simp) ?_
      rwa [List.append_nil]
  induction h with
  | last bare leaves => exact single leaves bare cut
  | next bare leaves connective _ ih =>
    refine List.forall_mem_append.2 ⟨?_, ih (cut.after connective)⟩
    exact single leaves bare (cut.before connective)

theorem words_isConnective {k : Text} (h : IsConnective k) : Text.words k = [k] :=
  Text.words_of_solid (finds_connector.ne_nil h) fun c hc =>
    Text.not_isBlank_of_isWord (isWord_of_isConnective h c hc)

theorem Conjoined.head_blank (h : Conjoined left s right cs) (none : cs = [])
    (start : inWord s.head? = false) : ∀ c ∈ s.head?, Text.isBlank c = true := by
  cases h with
  | last bare leaves =>
    subst none
    cases leaves with
    | nothing blank => exact fun c hc => blank c (List.mem_of_mem_head? hc)
  | @next _ piece k _ _ _ _ bare leaves connective later =>
    obtain ⟨rfl, -⟩ := List.append_eq_nil_iff.1 none
    cases leaves with
    | nothing blank =>
      cases piece with
      | nil =>
        rw [List.nil_append,
          Pattern.inWord_head_append_of (finds_connector.first connective.kind)] at start
        cases start
      | cons b piece =>
        rintro c ⟨⟩
        exact blank b List.mem_cons_self

/-- Nothing is left of a clause iff it has no words but those that connect. -/
theorem Conjoined.words_of_nil (h : Conjoined left s right cs) (none : cs = []) :
    ∀ w ∈ Text.words s, IsConnective w := by
  induction h with
  | last bare leaves =>
    subst none
    cases leaves with
    | nothing blank =>
      rw [Text.words_of_blank blank]
      exact List.forall_mem_nil _
  | @next _ piece k rest right _ _ bare leaves connective later ih =>
    obtain ⟨rfl, rfl⟩ := List.append_eq_nil_iff.1 none
    have head := later.head_blank rfl (Pattern.inWord_head_of_append connective.stop)
    cases leaves with
    | nothing blank =>
      rw [Text.words_gap_append blank, Text.words_append_of_head k head,
        words_isConnective connective.kind]
      exact List.forall_mem_cons.2 ⟨connective.kind, ih rfl⟩

theorem conjoined_of_words {left s : Text} (cut : CutOut left s [])
    (h : ∀ w ∈ Text.words s, IsConnective w) : Conjoined left s [] [] := by
  rcases Text.exists_word s with blank | ⟨gap, w, rest, rfl, blank, filled, solid, head⟩
  · exact .last (absent_of_blank blank) (.nothing blank)
  · rw [Text.words_gap_append blank, Text.words_append_of_head w head,
      Text.words_of_solid filled solid] at h
    obtain ⟨kind, h⟩ := List.forall_mem_cons.1 h
    have here : Stands IsConnective (left ++ gap) w (rest ++ []) := by
      refine ⟨Pattern.inWord_getLast_append_eq (inWord_getLast_of_blank blank) ?_, kind, ?_⟩
      · rintro rfl
        apply cut.start.resolve_right
        rw [List.nil_append, Pattern.inWord_head_append_of (finds_connector.first kind)]
        exact Bool.noConfusion
      · rw [List.append_nil]
        cases rest with
        | nil => rfl
        | cons b rest => exact Text.not_isWord_of_isBlank (head b rfl)
    have shorter : rest.length < (gap ++ (w ++ rest)).length := by
      have := List.length_pos_iff.2 filled
      simp only [List.length_append]
      omega
    exact .next (absent_of_blank blank) (.nothing blank) here
      (conjoined_of_words (cut.after here) h)
termination_by s.length

end Conditions

/-- The conditions of a query are those of its first WHERE clause, which ends before the first words
that end such a clause. Each is some text between blanks in which nothing connects, and nothing else
of the clause is left out but blanks and the words that connect. There are none iff the clause is
not there or has no other words. -/
theorem conditions_conjoined (query : Text) :
    (Absent IsWhere [] query [] ∧ conditions query = []) ∨
      ∃ o clause rest, IsClause IsWhere IsConditionEnd query o clause rest ∧
        (∀ cs, Conjoined (o.before ++ o.covered) clause rest cs ↔ conditions query = cs) ∧
        (∀ c ∈ conditions query, c ≠ [] ∧ Text.Tight c ∧ Absent IsConnective [] c []) ∧
        (conditions query = [] ↔ ∀ w ∈ Text.words clause, IsConnective w) := by
  rcases clause_spec finds_where finds_conditionEnd query with
    ⟨none, absent⟩ | ⟨o, rest, found, clause⟩
  · refine .inl ⟨absent, ?_⟩
    rw [conditions, whereClause?, none]
    rfl
  · have cut := clause.cutOut
    have conjoined (cs : List Text) : Conjoined (o.before ++ o.covered) (upTo conditionEnd o.after)
        rest cs ↔ conditions query = cs := by
      rw [conditions, whereClause?, found]
      exact conjoined_iff cut
    have own := (conjoined _).2 rfl
    refine .inr ⟨o, _, rest, clause, conjoined, own.forall_mem cut, own.words_of_nil, fun h => ?_⟩
    exact (conjoined []).1 ((conjoined_of_words (.whole _) h).congr (.whole _) cut)

end SqlReview.Query
