import SqlReview.Insight.Interpreter

/-!
Explaining a query: its statement is run once by whoever executes statements, and the plan that
comes back is interpreted. A tag that names no known database runs nothing.
-/
namespace SqlReview

inductive ExecutionError where
  | connection (text : Text)
  | query (text : Text)
  | execution (text : Text)
  | configuration (text : Text)
  | serialization
  | notSupported (text : Text)
  | other (text : Text)
deriving Repr, DecidableEq

def ExecutionError.message : ExecutionError → Text
  | .connection text => "Connection error: " ++ text
  | .query text => "Query error: " ++ text
  | .execution text => "Execution error: " ++ text
  | .configuration text => "Configuration error: " ++ text
  | .serialization => "Serialization error"
  | .notSupported text => "Not supported: " ++ text
  | .other text => text

inductive ExplainError where
  | unsupported (tag : Text)
  | execution (error : ExecutionError)
deriving Repr, DecidableEq

namespace ExplainError

def message : ExplainError → Text
  | .unsupported tag => "Execution plan not supported for " ++ tag ++ " databases"
  | .execution error => "Error generating execution plan: " ++ error.message

def isUnsupported : ExplainError → Bool
  | .unsupported _ => true
  | .execution _ => false

end ExplainError

abbrev Executor := Text → Except ExecutionError Json

structure ExplainReport where
  statement : Text
  database : Database
  plan : Json
  insights : Insight.Report
deriving Repr, BEq

/-- The outcome of an explanation, with the statements that were run for it. -/
structure ExplainRun where
  executed : List Text
  outcome : Except ExplainError ExplainReport

def resolveDatabase (tag : Text) : Except ExplainError Database :=
  match Database.ofTag? tag with
  | some database => .ok database
  | none => .error (.unsupported tag)

def explainStatement (tag query : Text) : Except ExplainError Text :=
  (resolveDatabase tag).map fun database => database.explainStatement query

/-- A null plan is a failed execution; any other plan is reported unchanged. -/
def explainOutcome (interpreter : Insight.Interpreter) (database : Database) (statement : Text)
    (answer : Except ExecutionError Json) : Except ExplainError ExplainReport :=
  match answer with
  | .error e => .error (.execution e)
  | .ok .null => .error (.execution (.execution "Failed to generate execution plan"))
  | .ok plan => .ok ⟨statement, database, plan, interpreter.interpret database plan⟩

def explain (interpreter : Insight.Interpreter) (executor : Executor) (tag query : Text) :
    ExplainRun :=
  match resolveDatabase tag with
  | .error e => ⟨[], .error e⟩
  | .ok database =>
    let statement := database.explainStatement query
    ⟨[statement], explainOutcome interpreter database statement (executor statement)⟩

end SqlReview
