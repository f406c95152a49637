import SqlReview.Config
import SqlReview.Insight.Basic
import SqlReview.Plan.Tree

/-!
Rules that look for insights in a plan. A caller may bring rules of its own; those shipped here give
their insights in the order in which the plan's nodes are visited.
-/
namespace SqlReview.Insight

open Plan

/-- A rule is handed the report of the rules before it and is free in what it makes of it. -/
structure Rule where
  name : Text
  evaluate : Tree → Thresholds → Report → Report

namespace Rule

def sampleInsights : List Insight :=
  [.warning .majorConcerns "Table scan detected. Consider adding indexes to improve performance.",
    .info .opportunities "Multiple join operations could be optimized by reordering joins.",
    .success .goodPractices "Proper use of indexes for primary key lookups."]

def tableName (n : Node) : Text := n.relation.getD "unknown"

/-- What a full scan amounts to: a scan without an estimate is taken to be large. -/
def fullScanInsight (t : Thresholds) (n : Node) : Insight :=
  match n.rows with
  | none =>
    .warning .majorConcerns ("Table scan detected on '" ++ tableName n ++
      "'. Consider adding indexes to improve performance.")
  | some rows =>
    let scan : Text :=
      "Table scan on '" ++ tableName n ++ "' reads about " ++ Text.ofNat rows ++ " rows. "
    if t.highRows ≤ rows then
      .warning .majorConcerns
        (scan ++ "Add an index on the filtered columns or narrow the query.")
    else if t.largeTable ≤ rows then
      .warning .majorConcerns (scan ++ "Consider adding indexes to improve performance.")
    else .info .opportunities (scan ++ "An index may help as the table grows.")

def joinOrderInsight (joins : Nat) : Insight :=
  .info .opportunities ("Multiple join operations (" ++ Text.ofNat joins ++
    ") could be optimized by reordering joins.")

def sortInsight : Insight :=
  .info .opportunities
    "Sort operation detected. An index matching the ORDER BY columns could avoid it."

def indexUsageInsight (n : Node) : Insight :=
  .success .goodPractices
    (match n.index with
    | some index => "Index '" ++ index ++ "' is used to read '" ++ tableName n ++ "'."
    | none => "An index is used to read '" ++ tableName n ++ "'.")

end Rule

inductive Shipped where
  /-- Three fixed insights, whatever the plan. -/
  | sample
  | fullScan
  | joinOrder
  | sort
  | indexUsage
deriving Repr, DecidableEq

namespace Shipped

def all : List Shipped := [.sample, .fullScan, .joinOrder, .sort, .indexUsage]

def name : Shipped → Text
  | .sample => "sample"
  | .fullScan => "full_scan"
  | .joinOrder => "join_order"
  | .sort => "sort"
  | .indexUsage => "index_usage"

def insights (t : Thresholds) (tree : Tree) : Shipped → List Insight
  | .sample => Rule.sampleInsights
  | .fullScan => (tree.nodes.filter (·.operation = .fullScan)).map (Rule.fullScanInsight t)
  | .joinOrder =>
    if 2 ≤ tree.count .join then [Rule.joinOrderInsight (tree.count .join)] else []
  | .sort => if tree.contains .sort then [Rule.sortInsight] else []
  | .indexUsage => (tree.nodes.filter (·.operation.usesIndex)).map Rule.indexUsageInsight

/-- A shipped rule adds to the report and never looks at what is in it. -/
def rule (s : Shipped) : Rule where
  name := s.name
  evaluate tree t report := (s.insights t tree).foldl .push report

end Shipped

def Rule.all : List Rule := Shipped.all.map Shipped.rule

end SqlReview.Insight
