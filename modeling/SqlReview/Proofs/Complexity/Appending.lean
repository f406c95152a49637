import SqlReview.Proofs.Complexity.Scoring
import SqlReview.Proofs.Query.Terminator

/-!
A query that another statement is put after. Each number that an assessment counts is at least what
it was, since nothing that is looked for has a semicolon in it: the WHERE clause either ends where
it did or goes on, and then its last piece is a condition with the semicolon.
-/
namespace SqlReview

namespace Query

open Sql
open Pattern (UnmovedBy)

section Conditions

variable {p : Pattern} {s t piece : Text} {m : Char}

theorem unmovedBy_keyword {w : Text} (known : w ∈ reservedWords) (t : Text) :
    UnmovedBy (';' :: t) (.word w) :=
  (finds_keyword known).2.unmovedBy (fun _ => wordsOnly_keyword known) (by decide) (by decide) t

theorem unmovedBy_conditionEnd (t : Text) : UnmovedBy (';' :: t) conditionEnd :=
  finds_conditionEnd.unmovedBy (fun _ => IsConditionEnd.wordsOnly) (by decide) (by decide) t

theorem unmovedBy_connector (t : Text) : UnmovedBy (';' :: t) connector :=
  finds_connector.unmovedBy (fun _ => IsConnective.wordsOnly) (by decide) (by decide) t

/-- A clause ends where it did, or it had no end and goes on. -/
theorem upTo_append (h : UnmovedBy (m :: t) p) (s : Text) : upTo p (s ++ m :: t) = upTo p s ∨
    upTo p s = s ∧ ∃ u, upTo p (s ++ m :: t) = s ++ m :: u := by
  unfold upTo
  cases ended : p.first? s with
  | some o =>
    rw [h.first?_of_some ended]
    exact .inl rfl
  | none =>
    cases found : p.first? (s ++ m :: t) with
    | none => exact .inr ⟨rfl, t, rfl⟩
    | some o =>
      obtain ⟨u, before, sub⟩ := h.first?_of_none ended found
      cases u with
      | nil => exact .inl (before.trans (List.append_nil s))
      | cons c u =>
        obtain ⟨rfl, _⟩ := List.cons_prefix_cons.1 sub
        exact .inr ⟨rfl, u, before⟩

theorem exists_splitFrom (p : Pattern) (before : Option Char) (piece s : Text) :
    ∃ t more, p.splitFrom before piece 0 s = (piece.reverse ++ t) :: more := by
  induction s generalizing before piece with
  | nil => exact ⟨[], [], by rw [Pattern.splitFrom, List.append_nil]⟩
  | cons c s ih =>
    rw [Pattern.splitFrom]
    split
    · exact ⟨[], _, by rw [List.append_nil]⟩
    · obtain ⟨t, more, e⟩ := ih (some c) (c :: piece)
      rw [List.reverse_cons, List.append_assoc] at e
      exact ⟨_, more, e⟩

theorem trimmedPieces_split_trim (s : Text) :
    trimmedPieces (connector.split (Text.trim s)) = trimmedPieces (connector.split s) :=
  (conjoined_iff (.whole s)).1 (conjoined_splitFrom [] s)

theorem length_trimmedPieces_le (pieces : List Text) :
    (trimmedPieces pieces).length ≤ pieces.length := by
  have shorter := List.length_filter_le (fun piece => !piece.isEmpty) (pieces.map Text.trim)
  rwa [List.length_map] at shorter

theorem trimmedPieces_cons_solid (inside : m ∈ piece) (solid : Text.isBlank m = false)
    (more : List Text) : trimmedPieces (piece :: more) = Text.trim piece :: trimmedPieces more := by
  have filled : (!(Text.trim piece).isEmpty) = true := by
    rw [Bool.not_eq_true', List.isEmpty_eq_false_iff]
    exact List.ne_nil_of_mem (Text.mem_trim inside solid)
  rw [trimmedPieces, List.map_cons, List.filter_cons, if_pos filled, trimmedPieces]

theorem length_conjuncts_append_le (s t : Text) :
    (trimmedPieces (connector.split s)).length ≤
      (trimmedPieces (connector.split (s ++ ';' :: t))).length := by
  have still := unmovedBy_connector t
  obtain ⟨front, last, e, e', -⟩ := still.split s
  rw [still.splitFrom_mark] at e'
  obtain ⟨u, more, rest⟩ := exists_splitFrom connector (some ';') (';' :: last.reverse) t
  have inside : ';' ∈ (';' :: last.reverse).reverse ++ u := by simp
  rw [e, e', rest, trimmedPieces_append, trimmedPieces_append,
    trimmedPieces_cons_solid inside (by decide), List.length_append, List.length_append]
  have one := length_trimmedPieces_le [last]
  rw [List.length_singleton] at one
  rw [List.length_cons]
  omega

theorem length_conditions_append_le (query rest : Text) :
    (conditions query).length ≤ (conditions (query ++ ';' :: rest)).length := by
  unfold conditions whereClause?
  cases found : (Pattern.word "WHERE").first? query with
  | none => exact Nat.zero_le _
  | some o =>
    rw [(unmovedBy_keyword (by decide) rest).first?_of_some found]
    simp only [Option.map_some, Occurrence.followed, trimmedPieces_split_trim]
    rcases upTo_append (unmovedBy_conditionEnd rest) o.after with same | ⟨whole, u, longer⟩
    · rw [same]
    · rw [whole, longer]
      exact length_conjuncts_append_le o.after u

end Conditions

end Query

namespace Complexity

open Pattern (Tells UnmovedBy inWord isSpelling)

section Patterns

variable {part k : Text}

theorem tells_substring (part : Text) :
    Tells (substring part) fun _ k _ => Text.lower k = part where
  covers_iff {_ k rest} := by
    rw [substring, Option.ite_none_right_eq_some, List.isPrefixOf_iff_prefix]
    constructor
    · rintro ⟨initial, length⟩
      rw [Option.some.inj length, List.take_left' rfl] at initial
      refine (initial.eq_of_length ?_).symm
      rw [Option.some.inj length, Text.lower, List.length_map]
    · rintro rfl
      rw [Text.lower, List.length_map, List.take_left' rfl]
      exact ⟨List.prefix_rfl, rfl⟩
  within {_ s n} h := by
    rw [substring, Option.ite_none_right_eq_some, List.isPrefixOf_iff_prefix] at h
    have short := h.1.length_le
    rw [Text.lower, List.length_map, List.length_take, Option.some.inj h.2] at short
    exact Nat.le_trans short (Nat.min_le_right _ _)

theorem unmovedBy_substring (free : ';' ∉ part) (t : Text) :
    UnmovedBy (';' :: t) (substring part) := by
  refine (tells_substring part).unmovedBy ?_ (fun _ _ => Iff.rfl) t
  rintro _ k _ rfl inside
  exact free (List.mem_map.2 ⟨';', inside, rfl⟩)

inductive IsWindowCall : Text → Prop
  | call {run gap : Text} (spelled : isSpelling "OVER" run = true)
      (blank : ∀ c ∈ gap, Text.isBlank c = true) : IsWindowCall (run ++ (gap ++ ['(']))

theorem capitals_over : Pattern.Capitals "OVER" := ⟨by decide, List.all_eq_true.1 (by decide)⟩

theorem windowCall_eq_some_iff {before : Option Char} {s : Text} {n : Nat} :
    windowCall before s = some n ↔ inWord before = false ∧ Pattern.spells "OVER" s = true ∧
      (s.drop (4 + Pattern.blankCount (s.drop 4))).head? = some '(' ∧
        4 + Pattern.blankCount (s.drop 4) + 1 = n := by
  simp only [windowCall, Option.ite_none_right_eq_some, Bool.and_eq_true, Bool.not_eq_true',
    decide_eq_true_eq, List.drop_drop, Option.some_inj, and_assoc]

theorem tells_windowCall :
    Tells windowCall fun before k _ => inWord before = false ∧ IsWindowCall k where
  covers_iff {before k rest} := by
    rw [windowCall_eq_some_iff]
    constructor
    · rintro ⟨alone, spelled, opens, length⟩
      have parts : k = (k ++ rest).take _ := (List.take_left' length.symm).symm
      rw [List.take_add, List.take_add, List.take_one, opens, List.append_assoc] at parts
      rw [parts]
      exact ⟨alone, .call (Pattern.isSpelling_take capitals_over.2 spelled)
        (Pattern.isBlank_take_blankCount _)⟩
    · rintro ⟨alone, @⟨run, gap, spelled, blank⟩⟩
      have four : run.length = 4 := (Pattern.length_of_isSpelling spelled).symm
      have solid : ∀ c ∈ (['('] ++ rest).head?, Text.isBlank c = false := by
        rintro _ ⟨⟩
        decide
      have gapped := Pattern.blankCount_append blank solid
      rw [List.append_assoc, List.append_assoc, Pattern.spells_append spelled,
        List.drop_left' four, gapped, ← four, List.drop_length_add_append, List.drop_left' rfl,
        List.length_append, List.length_append]
      exact ⟨alone, rfl, rfl, Nat.add_assoc _ _ _⟩
  within {before s n} h := by
    obtain ⟨_, _, opens, length⟩ := windowCall_eq_some_iff.1 h
    rw [List.head?_drop, List.getElem?_eq_some_iff] at opens
    rw [← length]
    exact opens.1

theorem IsWindowCall.free (h : IsWindowCall k) : ';' ∉ k := by
  cases h with
  | call spelled blank =>
    have words := (Pattern.wordsOnly_spelled capitals_over spelled).append
      (Pattern.wordsOnly_blank blank)
    rw [← List.append_assoc, List.mem_append, not_or]
    exact ⟨words.free (by decide) (by decide), by decide⟩

theorem unmovedBy_windowCall (t : Text) : UnmovedBy (';' :: t) windowCall :=
  tells_windowCall.unmovedBy (fun _ _ _ holds => holds.2.free) (fun _ _ => Iff.rfl) t

end Patterns

section Growth

/-- Nothing that is counted is less often in the one query than in the other. -/
structure Outgrown (query longer : Text) : Prop where
  selects : selectCount query ≤ selectCount longer
  joins : joinCount query ≤ joinCount longer
  aggregates : aggregateCount query ≤ aggregateCount longer
  windows : windowCall.occursIn query = true → windowCall.occursIn longer = true
  conditions : conditionCount query ≤ conditionCount longer
  distinct : (Pattern.word "DISTINCT").occursIn query = true →
    (Pattern.word "DISTINCT").occursIn longer = true

namespace Outgrown

variable {query longer : Text} {factor : Factor}

theorem triggers (h : Outgrown query longer) (found : Triggers query factor) :
    Triggers longer factor := by
  cases factor with
  | nestedSubqueries => exact Nat.lt_of_lt_of_le found h.selects
  | multipleJoins => exact Nat.lt_of_lt_of_le found h.joins
  | complexAggregations => exact Nat.lt_of_lt_of_le found h.aggregates
  | windowFunctions => exact h.windows found
  | complexFiltering => exact Nat.lt_of_lt_of_le found h.conditions
  | distinctOperator => exact h.distinct found
  | orderWithoutIndex => exact found
  | largeTables => exact found

theorem worth_le (h : Outgrown query longer) (factor : Factor) :
    worth query factor ≤ worth longer factor := by
  have joins := h.joins
  have aggregates := h.aggregates
  have conditions := h.conditions
  cases factor <;> simp only [worth] <;> omega

theorem share_le (h : Outgrown query longer) (factor : Factor) :
    share query factor ≤ share longer factor := by
  by_cases found : Triggers query factor
  · rw [share_of_triggers found, share_of_triggers (h.triggers found)]
    exact h.worth_le factor
  · rw [share_of_not_triggers found]
    exact Nat.zero_le _

end Outgrown

theorem aggregateCount_eq_sum (query : Text) :
    aggregateCount query = (aggregateCalls.map fun call => (substring call).count query).sum := by
  rw [aggregateCount, List.sum_eq_foldr, List.foldr_map]

theorem outgrown_append (query rest : Text) : Outgrown query (query ++ ';' :: rest) where
  selects := (unmovedBy_substring (by decide) rest).count_le query
  joins := (Query.unmovedBy_keyword (by decide) rest).count_le query
  aggregates := by
    have free : ∀ call ∈ aggregateCalls, ';' ∉ call := by decide
    rw [aggregateCount_eq_sum, aggregateCount_eq_sum]
    exact List.sum_le_sum fun call known =>
      (unmovedBy_substring (free call known) rest).count_le query
  windows := (unmovedBy_windowCall rest).occursIn
  conditions := Query.length_conditions_append_le query rest
  distinct := (Query.unmovedBy_keyword (by decide) rest).occursIn

end Growth

end Complexity

namespace Assessment

open Complexity

/-- A statement that is put after a query never lowers its assessment: every factor that was found
is still found, no condition is lost and the score is no less. -/
theorem assess_append (query rest : Text) :
    (∀ factor, (assess query).isFound factor = true →
        (assess (query ++ ';' :: rest)).isFound factor = true) ∧
      (Query.conditions query).length ≤ (Query.conditions (query ++ ';' :: rest)).length ∧
      (assess query).score ≤ (assess (query ++ ';' :: rest)).score := by
  have grown := outgrown_append query rest
  refine ⟨fun factor found => ?_, grown.conditions, ?_⟩
  · rw [isFound_iff] at found ⊢
    exact grown.triggers found
  · have sum : (Factor.all.map (share query)).sum ≤
        (Factor.all.map (share (query ++ ';' :: rest))).sum :=
      List.sum_le_sum fun factor _ => grown.share_le factor
    rw [score_eq_min, score_eq_min]
    omega

def unended : Text := "SELECT DISTINCT a FROM t WHERE b AND"

theorem assess_append_unended :
    (assess (unended ++ ';' :: " c OR d")).isFound .distinctOperator = true ∧
      1 ≤ (assess (unended ++ ';' :: " c OR d")).score := by
  obtain ⟨found, _, score⟩ := assess_append unended " c OR d"
  have one : (assess unended).score = 1 := by decide +kernel
  rw [one] at score
  exact ⟨found .distinctOperator (by decide +kernel), score⟩

end Assessment

end SqlReview
