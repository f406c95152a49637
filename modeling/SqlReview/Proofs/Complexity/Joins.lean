import SqlReview.Proofs.Complexity.Scoring
import SqlReview.Proofs.Query.Conjuncts

/-!
The joins of a query by two patterns. One finds every whole word JOIN and the other takes the words
before it along; since no such word is JOIN, neither misses one that the other finds.
-/
namespace SqlReview.Query

open Sql
open Pattern (Finds Leftmost Clear inWord isSpelling)

def joinWord (o : Occurrence) : Occurrence where
  before := o.before ++ o.covered.take (o.covered.length - 4)
  covered := o.covered.drop (o.covered.length - 4)
  after := o.after

section Word

variable {left lead part run rest : Text}

theorem finds_join : Finds (.word "JOIN") fun k => isSpelling "JOIN" k = true :=
  (finds_keyword join_reserved).2

theorem joinWord_self (spelled : isSpelling "JOIN" run = true) :
    joinWord ⟨left, run, rest⟩ = ⟨left, run, rest⟩ := by
  have short : run.length = 4 := (Pattern.length_of_isSpelling spelled).symm
  rw [joinWord, short, Nat.sub_self, List.take_zero, List.drop_zero, List.append_nil]

theorem joinWord_append (long : 4 ≤ part.length) :
    joinWord ⟨left ++ lead, part, rest⟩ = joinWord ⟨left, lead ++ part, rest⟩ := by
  have leads : (lead ++ part).length - 4 = lead.length + (part.length - 4) := by
    rw [List.length_append, Nat.add_sub_assoc long]
  rw [joinWord, joinWord, leads, List.take_length_add_append, List.drop_length_add_append,
    List.append_assoc]

theorem IsJoin.four_le_length (h : IsJoin part) : 4 ≤ part.length := by
  induction h with
  | join spelled => exact Nat.le_of_eq (Pattern.length_of_isSpelling spelled)
  | lead _ _ _ _ _ ih =>
    rw [← List.append_assoc, List.length_append]
    exact Nat.le_add_left_of_le ih

end Word

section Search

variable {seen left k s rest : Text} {os : List Occurrence}

theorem occurrencesFrom_passed {p : Pattern} {part : Text}
    (clear : Clear p left.getLast? part rest) :
    p.occurrencesFrom left.reverse 0 (part ++ rest) =
      p.occurrencesFrom (left ++ part).reverse 0 rest := by
  rw [← List.head?_reverse] at clear
  rw [Pattern.occurrencesFrom_clear clear, List.reverse_append]

theorem clear_lead {w run gap : Text} {before : Option Char} (known : w ∈ joinLeads)
    (spelled : isSpelling w run = true) (filled : gap ≠ [])
    (blank : ∀ c ∈ gap, Text.isBlank c = true) :
    Clear (.word "JOIN") before (run ++ gap) rest := by
  have capital := (capitals_of_reserved w (reserved_of_joinLeads w known)).2
  have other : "JOIN".toList ∉ joinLeads := by decide
  have starts := (finds_keyword join_reserved).1
  have word := Pattern.isWord_of_isSpelling capital spelled
  have unlike : ∀ join ∈ ["JOIN".toList], isSpelling join run = false := by
    rw [List.forall_mem_singleton, ← Bool.not_eq_true]
    intro spelled'
    have same :=
      Pattern.eq_of_isSpelling capital (capitals_of_reserved _ join_reserved).2 spelled spelled'
    exact other (same ▸ known)
  exact (starts.clear_of_run word unlike (Pattern.inWord_head_blank filled blank rest)).append
    (starts.clear_of_marks (not_isWord_of_blank blank))

theorem IsJoin.occurrencesFrom (h : IsJoin k) (start : inWord left.getLast? = false)
    (stop : inWord rest.head? = false) :
    (Pattern.word "JOIN").occurrencesFrom left.reverse 0 (k ++ rest) =
      joinWord ⟨left, k, rest⟩ ::
        (Pattern.word "JOIN").occurrencesFrom (left ++ k).reverse 0 rest := by
  induction h generalizing left with
  | @join run spelled =>
    have covers : Pattern.word "JOIN" left.reverse.head? (run ++ rest) = some run.length := by
      rw [List.head?_reverse]
      exact Pattern.word_covers start spelled stop
    rw [Pattern.occurrencesFrom_covered (finds_join.ne_nil spelled) covers, List.reverse_reverse,
      joinWord_self spelled, List.reverse_append]
  | @lead w run gap s known spelled filled blank more ih =>
    have start' : inWord (left ++ (run ++ gap)).getLast? = false := by
      rw [← List.append_assoc]
      exact Pattern.inWord_getLast_append_eq (inWord_getLast_of_blank blank)
        fun none => absurd none filled
    rw [← List.append_assoc, List.append_assoc,
      occurrencesFrom_passed (clear_lead known spelled filled blank), ih start',
      joinWord_append more.four_le_length, List.append_assoc left]

theorem occurrencesFrom_join (h : Leftmost IsJoin seen s os) :
    (Pattern.word "JOIN").occurrencesFrom seen.reverse 0 s = os.map joinWord := by
  -- a JOIN by itself is a join as well
  induction h with
  | done none =>
    refine finds_join.occurrencesFrom_none fun x k y e stands => none x k y e ?_
    exact ⟨stands.start, .join stands.kind, stands.stop⟩
  | @next seen x k y os here first later ih =>
    have clear : Clear (.word "JOIN") seen.getLast? x (k ++ y) := by
      refine finds_join.clear fun x' k' y' e stands => first x' k' y' e ?_
      exact ⟨stands.start, .join stands.kind, stands.stop⟩
    rw [occurrencesFrom_passed clear, here.kind.occurrencesFrom here.start here.stop,
      List.append_assoc, ih, List.map_cons]

theorem occurrences_join (query : Text) :
    (Pattern.word "JOIN").occurrences query = (joinKeyword.occurrences query).map joinWord :=
  occurrencesFrom_join (finds_joinKeyword.leftmost_iff.2 rfl)

theorem length_joinConditions_le (query : Text) :
    (joinConditions query).length ≤ (joinKeyword.occurrences query).length :=
  List.length_filterMap_le _ _

end Search

end SqlReview.Query

namespace SqlReview.Assessment

open Complexity

theorem joinCount_eq (query : Text) :
    joinCount query = (Query.joinKeyword.occurrences query).length := by
  rw [joinCount, Pattern.count, Query.occurrences_join, List.length_map]

/-- The joins of a query are counted as its join conditions are looked for: where two conditions or
more are found, so is the factor of many joins. -/
theorem multipleJoins_of_conditions (query : Text) :
    joinCount query = (Query.joinKeyword.occurrences query).length ∧
      (Query.joinConditions query).length ≤ joinCount query ∧
      (2 ≤ (Query.joinConditions query).length →
        (assess query).isFound .multipleJoins = true) ∧
      ((assess query).isFound .multipleJoins = false →
        (Query.joinConditions query).length ≤ 1) := by
  have count := joinCount_eq query
  have fewer := Query.length_joinConditions_le query
  rw [← count] at fewer
  have found : (assess query).isFound .multipleJoins = true ↔ 1 < joinCount query :=
    isFound_iff query .multipleJoins
  refine ⟨count, fewer, fun two => found.2 (Nat.lt_of_lt_of_le two fewer), fun missing => ?_⟩
  rw [← Bool.not_eq_true, found] at missing
  omega

theorem multipleJoins_of_two_conditions :
    (assess "SELECT a FROM t LEFT OUTER JOIN u ON b = c join v ON d = e").isFound
        .multipleJoins = true ∧
      (Query.joinConditions "SELECT a FROM t JOIN u ON b = c").length ≤ 1 := by
  constructor
  · refine (multipleJoins_of_conditions _).2.2.1 ?_
    decide +kernel
  · refine (multipleJoins_of_conditions _).2.2.2 ?_
    decide +kernel

end SqlReview.Assessment
