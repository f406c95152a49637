import Mathlib.Algebra.GroupWithZero.Nat
import Mathlib.Algebra.Order.BigOperators.Group.List
import Mathlib.Algebra.Order.Group.Nat
import SqlReview.Complexity

/-!
Flags and points of an assessment. What a factor is found by and what it is worth are told apart;
the score is the plain sum of what the found factors are worth, up to the highest score, since the
byte that holds the sum is never full.
-/
namespace SqlReview

namespace Factor

theorem mem_all (factor : Factor) : factor ∈ all := by cases factor <;> decide

def cap : Factor → Nat
  | .nestedSubqueries | .complexAggregations | .windowFunctions | .complexFiltering => 2
  | .multipleJoins => 3
  | .distinctOperator => 1
  | .orderWithoutIndex | .largeTables => 0

end Factor

namespace Complexity

def Triggers (query : Text) : Factor → Prop
  | .nestedSubqueries => 1 < selectCount query
  | .multipleJoins => 1 < joinCount query
  | .complexAggregations => 0 < aggregateCount query
  | .windowFunctions => windowCall.occursIn query = true
  | .complexFiltering => 2 < conditionCount query
  | .distinctOperator => (Pattern.word "DISTINCT").occursIn query = true
  | .orderWithoutIndex | .largeTables => False

def worth (query : Text) : Factor → Nat
  | .nestedSubqueries | .windowFunctions => 2
  | .multipleJoins => min (joinCount query) 3
  | .complexAggregations => min (aggregateCount query) 2
  | .complexFiltering => min (conditionCount query - 2) 2
  | .distinctOperator => 1
  | .orderWithoutIndex | .largeTables => 0

def share (query : Text) (factor : Factor) : Nat := (points? query factor).getD 0

section Points

variable {query : Text} {factor : Factor} {n : Nat}

theorem points?_eq_some_iff :
    points? query factor = some n ↔ Triggers query factor ∧ worth query factor = n := by
  cases factor with
  | orderWithoutIndex => simp [points?, Triggers]
  | largeTables => simp [points?, Triggers]
  | _ => exact Option.ite_none_right_eq_some.trans (and_congr_right fun _ => Option.some_inj)

theorem isSome_points?_iff : (points? query factor).isSome = true ↔ Triggers query factor := by
  simp only [Option.isSome_iff_exists, points?_eq_some_iff, exists_and_left, exists_eq',
    and_true]

theorem Triggers.worth_pos (h : Triggers query factor) : 1 ≤ worth query factor := by
  cases factor with
  | orderWithoutIndex => exact h.elim
  | largeTables => exact h.elim
  | _ =>
    simp only [Triggers, worth] at h ⊢
    omega

theorem worth_le_cap (query : Text) (factor : Factor) : worth query factor ≤ factor.cap := by
  cases factor <;> simp only [worth, Factor.cap] <;> omega

theorem share_of_triggers (h : Triggers query factor) : share query factor = worth query factor := by
  rw [share, points?_eq_some_iff.2 ⟨h, rfl⟩, Option.getD_some]

theorem share_of_not_triggers (h : ¬ Triggers query factor) : share query factor = 0 := by
  rw [← isSome_points?_iff, Bool.not_eq_true, Option.isSome_eq_false_iff,
    Option.isNone_iff_eq_none] at h
  rw [share, h, Option.getD_none]

theorem share_eq_zero_iff : share query factor = 0 ↔ ¬ Triggers query factor := by
  by_cases h : Triggers query factor
  · rw [share_of_triggers h]
    exact iff_of_false (Nat.ne_of_gt h.worth_pos) (not_not_intro h)
  · exact iff_of_true (share_of_not_triggers h) h

theorem share_le_cap (query : Text) (factor : Factor) : share query factor ≤ factor.cap := by
  by_cases h : Triggers query factor
  · rw [share_of_triggers h]
    exact worth_le_cap query factor
  · rw [share_of_not_triggers h]
    exact Nat.zero_le _

theorem sum_share_le (query : Text) : (Factor.all.map (share query)).sum ≤ 12 :=
  List.sum_le_sum (l := Factor.all) (g := Factor.cap) fun factor _ => share_le_cap query factor

end Points

section Byte

variable {ps : List Nat} {score : Nat}

/-- A sum in a byte stops at the largest one for good. -/
theorem foldl_addPoints (ps : List Nat) (fits : score ≤ 255) :
    ps.foldl addPoints score = min 255 (score + ps.sum) := by
  induction ps generalizing score with
  | nil => exact (Nat.min_eq_right fits).symm
  | cons p ps ih =>
    have fits' : addPoints score p ≤ 255 := Nat.min_le_left _ _
    rw [List.foldl_cons, ih fits', addPoints, List.sum_cons]
    omega

theorem foldl_addPoints_eq_sum (fits : ps.sum ≤ 255) : ps.foldl addPoints 0 = ps.sum := by
  rw [foldl_addPoints ps (Nat.zero_le _), Nat.zero_add, Nat.min_eq_right fits]

end Byte

end Complexity

namespace Assessment

open Complexity

variable (query : Text)

section Flags

theorem isFound_assess (factor : Factor) :
    (assess query).isFound factor = (points? query factor).isSome := by
  rw [isFound, assess, List.any_map, Bool.eq_iff_iff, List.any_eq_true]
  constructor
  · rintro ⟨other, _, same⟩
    obtain ⟨rfl, found⟩ := Prod.mk.inj (beq_iff_eq.1 same)
    exact found
  · intro found
    exact ⟨factor, factor.mem_all, beq_iff_eq.2 (Prod.ext rfl found)⟩

theorem isFound_iff (factor : Factor) :
    (assess query).isFound factor = true ↔ Triggers query factor := by
  rw [isFound_assess, isSome_points?_iff]

theorem triggered_assess : (assess query).triggered = Factor.all.filter (assess query).isFound := by
  have flags : (assess query).isFound = fun factor => (points? query factor).isSome :=
    funext (isFound_assess query)
  rw [flags, ← List.filterMap_eq_filter, triggered, assess, List.filterMap_map]
  rfl

theorem filterMap_points? : Factor.all.filterMap (points? query) =
    (assess query).triggered.map (worth query) := by
  rw [triggered_assess, ← List.filterMap_eq_filter, List.map_filterMap]
  apply List.filterMap_congr
  intro factor _
  by_cases found : Triggers query factor
  · rw [Option.guard, if_pos ((isFound_iff query factor).2 found), Option.map_some]
    exact points?_eq_some_iff.2 ⟨found, rfl⟩
  · rw [Option.guard, if_neg (mt (isFound_iff query factor).1 found), Option.map_none]
    rwa [← isSome_points?_iff, Bool.not_eq_true, Option.isSome_eq_false_iff,
      Option.isNone_iff_eq_none] at found

theorem sum_worth : ((assess query).triggered.map (worth query)).sum =
    (Factor.all.map (share query)).sum := by
  rw [triggered_assess]
  generalize Factor.all = factors
  induction factors with
  | nil => rfl
  | cons factor factors ih =>
    rw [List.map_cons, List.sum_cons, ← ih]
    by_cases found : Triggers query factor
    · rw [List.filter_cons_of_pos ((isFound_iff query factor).2 found), List.map_cons,
        List.sum_cons, share_of_triggers found]
    · rw [List.filter_cons_of_neg (mt (isFound_iff query factor).1 found),
        share_of_not_triggers found, Nat.zero_add]

end Flags

section Score

/-- The byte holds the plain sum all along. -/
theorem foldl_take_worth (n : Nat) :
    (((assess query).triggered.map (worth query)).take n).foldl addPoints 0 =
      (((assess query).triggered.map (worth query)).take n).sum := by
  have first := (List.take_sublist n ((assess query).triggered.map (worth query))).sum_le_sum
    fun _ _ => Nat.zero_le _
  have whole := sum_share_le query
  rw [← sum_worth] at whole
  exact foldl_addPoints_eq_sum (by omega)

theorem score_eq_min :
    (assess query).score = min maxScore (Factor.all.map (share query)).sum := by
  have all := foldl_take_worth query ((assess query).triggered.map (worth query)).length
  rw [List.take_length, sum_worth, ← filterMap_points?] at all
  rw [Nat.min_comm, ← all]
  rfl

/-- The score is zero just if nothing is found, since a factor that is found brings a point. -/
theorem score_eq_zero_iff :
    (assess query).score = 0 ↔ ∀ factor, (assess query).isFound factor = false := by
  have none : (Factor.all.map (share query)).sum = 0 ↔ ∀ factor, share query factor = 0 := by
    rw [List.sum_eq_zero_iff, List.forall_mem_map]
    exact ⟨fun h factor => h factor factor.mem_all, fun h factor _ => h factor⟩
  have flag (factor : Factor) :
      share query factor = 0 ↔ (assess query).isFound factor = false := by
    rw [share_eq_zero_iff, ← isFound_iff, Bool.not_eq_true]
  rw [score_eq_min, ← forall_congr' flag, ← none, maxScore]
  omega

/-- The score of a query is the sum of what the factors found in it are worth, ten at most. The
reserved factors are never found and the others are worth a point at least; the sum is never more
than twelve, so that the byte it is kept in holds it at every step. -/
theorem assess_score :
    (assess query).score = min 10 ((assess query).triggered.map (worth query)).sum ∧
      (assess query).triggered = Factor.all.filter (assess query).isFound ∧
      (∀ factor, (assess query).isFound factor = true ↔ Triggers query factor) ∧
      (∀ factor, (assess query).isFound factor = true → 1 ≤ worth query factor) ∧
      (assess query).isFound .orderWithoutIndex = false ∧
      (assess query).isFound .largeTables = false ∧
      ((assess query).triggered.map (worth query)).sum ≤ 12 ∧
      (∀ n, (((assess query).triggered.map (worth query)).take n).foldl addPoints 0 =
        (((assess query).triggered.map (worth query)).take n).sum) ∧
      ((assess query).score = 0 ↔ ∀ factor, (assess query).isFound factor = false) := by
  refine ⟨?_, triggered_assess query, isFound_iff query, ?_, isFound_assess query _,
    isFound_assess query _, ?_, foldl_take_worth query, score_eq_zero_iff query⟩
  · rw [score_eq_min, sum_worth]
    rfl
  · intro factor found
    exact ((isFound_iff query factor).1 found).worth_pos
  · rw [sum_worth]
    exact sum_share_le query

def busy : Text :=
  "SELECT DISTINCT sum(select), avg(b) OVER (c) FROM t JOIN u JOIN v JOIN w WHERE d OR e OR f OR g"

theorem assess_score_busy : (assess busy).score = 10 ∧
    ((assess busy).triggered.map (worth busy)).sum = 12 ∧
    ((assess busy).isFound .multipleJoins = true → 1 ≤ worth busy .multipleJoins) := by
  obtain ⟨score, _, _, filled, _⟩ := assess_score busy
  have sum : ((assess busy).triggered.map (worth busy)).sum = 12 := by decide +kernel
  rw [score, sum]
  exact ⟨rfl, rfl, filled .multipleJoins⟩

end Score

end Assessment

end SqlReview
