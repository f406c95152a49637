import SqlReview.Insight.Rule
import SqlReview.Plan.Normal

/-!
An interpreter runs its rules over a plan, one after the other.
-/
namespace SqlReview.Insight

open Plan

structure Interpreter where
  rules : List Rule
  thresholds : Thresholds

namespace Interpreter

def new (t : Thresholds) : Interpreter := ⟨[], t⟩

/-- Rules run in the order in which they were added. -/
def withRule (rule : Rule) (i : Interpreter) : Interpreter := { i with rules := i.rules ++ [rule] }

def ofShipped (t : Thresholds) (rules : List Shipped) : Interpreter :=
  rules.foldl (fun i s => i.withRule s.rule) (new t)

def placeholder (t : Thresholds) : Interpreter := ofShipped t [.sample]

def builtin (t : Thresholds) : Interpreter :=
  ofShipped t [.fullScan, .joinOrder, .sort, .indexUsage]

def default : Interpreter := placeholder .default

def ofRuleSet (rules : RuleSet) (t : Thresholds) : Interpreter :=
  match rules with
  | .placeholder => placeholder t
  | .builtin => builtin t

def ofConfig (config : Config) : Interpreter := ofRuleSet config.ruleSet config.thresholds

def ruleNames (i : Interpreter) : List Text := i.rules.map Rule.name

def evaluate (i : Interpreter) (tree : Tree) : Report :=
  i.rules.foldl (fun report rule => rule.evaluate tree i.thresholds report) .empty

/-- A plan that cannot be read counts as one without nodes. -/
def interpret (i : Interpreter) (database : Database) (plan : Json) : Report :=
  match normalize database plan with
  | .ok tree => i.evaluate tree
  | .error _ => i.evaluate (.empty database)

end Interpreter

end SqlReview.Insight
