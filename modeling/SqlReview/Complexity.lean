import SqlReview.Query.Condition

/-!
A query's complexity: the factors of a fixed catalog that are found in it and the points they
bring. Two factors of the catalog are reserved and never found.
-/
namespace SqlReview

inductive Factor where
  | nestedSubqueries
  | multipleJoins
  | complexAggregations
  | windowFunctions
  | complexFiltering
  | orderWithoutIndex
  | distinctOperator
  | largeTables
deriving Repr, DecidableEq

namespace Factor

def all : List Factor :=
  [.nestedSubqueries, .multipleJoins, .complexAggregations, .windowFunctions, .complexFiltering,
    .orderWithoutIndex, .distinctOperator, .largeTables]

def name : Factor → Text
  | .nestedSubqueries => "Nested Subqueries"
  | .multipleJoins => "Multiple Joins"
  | .complexAggregations => "Complex Aggregations"
  | .windowFunctions => "Window Functions"
  | .complexFiltering => "Complex Filtering"
  | .orderWithoutIndex => "ORDER BY without INDEX"
  | .distinctOperator => "DISTINCT Operator"
  | .largeTables => "Large Table Operations"

def explanation : Factor → Text
  | .nestedSubqueries => "Nested subqueries can significantly impact performance"
  | .multipleJoins => "Queries with multiple joins may require optimization"
  | .complexAggregations => "Aggregations like COUNT, SUM, AVG may require optimization"
  | .windowFunctions => "Window functions can be resource-intensive"
  | .complexFiltering => "Many WHERE conditions or complex predicates"
  | .orderWithoutIndex => "Sorting without proper indexes can be slow"
  | .distinctOperator => "DISTINCT requires additional processing"
  | .largeTables => "Operations on large tables may require optimization"

end Factor

namespace Complexity

/-- A part of a text in small letters, wherever it stands and in any case of its ASCII letters. -/
def substring (part : Text) : Pattern := fun _ s =>
  if part.isPrefixOf (Text.lower (s.take part.length)) then some part.length else none

def aggregateCalls : List Text :=
  (["sum(", "avg(", "count(", "max(", "min("] : List String).map String.toList

def selectCount (query : Text) : Nat := (substring "select").count query

def joinCount (query : Text) : Nat := (Pattern.word "JOIN").count query

def aggregateCount (query : Text) : Nat :=
  aggregateCalls.foldr (fun call total => (substring call).count query + total) 0

def windowCall : Pattern := fun before s =>
  let rest := s.drop 4
  let gap := Pattern.blankCount rest
  if !Pattern.inWord before && Pattern.spells "OVER" s && (rest.drop gap).head? = some '(' then
    some (4 + gap + 1)
  else none

def conditionCount (query : Text) : Nat := (Query.conditions query).length

def points? (query : Text) : Factor → Option Nat
  | .nestedSubqueries => if 1 < selectCount query then some 2 else none
  | .multipleJoins => if 1 < joinCount query then some (min (joinCount query) 3) else none
  | .complexAggregations =>
    if 0 < aggregateCount query then some (min (aggregateCount query) 2) else none
  | .windowFunctions => if windowCall.occursIn query then some 2 else none
  | .complexFiltering =>
    if 2 < conditionCount query then some (min (conditionCount query - 2) 2) else none
  | .distinctOperator => if (Pattern.word "DISTINCT").occursIn query then some 1 else none
  | .orderWithoutIndex | .largeTables => none

def maxScore : Nat := 10

/-- The sum is kept in a byte, where it stops at the largest one. -/
def addPoints (score points : Nat) : Nat := min 255 (score + min 255 points)

end Complexity

structure Assessment where
  score : Nat
  found : List (Factor × Bool)
deriving Repr, DecidableEq

namespace Assessment

def assess (query : Text) : Assessment where
  score := min ((Factor.all.filterMap (Complexity.points? query)).foldl Complexity.addPoints 0)
    Complexity.maxScore
  found := Factor.all.map fun factor => (factor, (Complexity.points? query factor).isSome)

def isFound (a : Assessment) (factor : Factor) : Bool :=
  a.found.any fun entry => entry == (factor, true)

def triggered (a : Assessment) : List Factor :=
  a.found.filterMap fun (factor, found) => if found then some factor else none

end Assessment

end SqlReview
