import SqlReview.Complexity
import SqlReview.Explain
import SqlReview.Index.Recommendation
import SqlReview.Layout.Render
import SqlReview.Sql.Statement

/-!
The advisor: a configuration and the interpreter that goes with it. It keeps nothing of the queries
it is asked about.
-/
namespace SqlReview

/-- What is told about a query by itself; a blank query has no layout. -/
structure Analysis where
  kind : Sql.StatementKind
  tables : List Text
  columns : List Text
  complexity : Assessment
  formatted : Option Text
deriving Repr, DecidableEq

structure Advisor where
  config : Config
  interpreter : Insight.Interpreter

namespace Advisor

def new (config : Config) : Advisor := ⟨config, .ofConfig config⟩

def withInterpreter (interpreter : Insight.Interpreter) (a : Advisor) : Advisor :=
  { a with interpreter }

def analyze (a : Advisor) (query : Text) : Analysis :=
  let refs := Query.References.ofQuery query
  { kind := .ofQuery query
    tables := refs.tables
    columns := refs.columns
    complexity := .assess query
    formatted := (Layout.format a.config.layout query).toOption }

def recommendIndexes (_a : Advisor) (query : Text) : Index.Recommendations :=
  .ofFacts (.extract query)

def explain (a : Advisor) (executor : Executor) (tag query : Text) : ExplainRun :=
  SqlReview.explain a.interpreter executor tag query

end Advisor

end SqlReview
