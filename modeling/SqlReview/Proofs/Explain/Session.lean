import SqlReview.Advisor

/-!
Whole runs of one advisor. It has one statement executed for each query whose database it knows, and
whoever executes statements may answer each in the light of all those before it. What the advisor
tells still depends on the request and that one answer alone, as long as its rules are
deterministic: those that callers bring may remember what they were asked before.
-/
namespace SqlReview

/-- What an executor does over a run: its answers, given the statements it received before. -/
abbrev Behaviour := List Text → Executor

inductive Request where
  | explain (tag query : Text)
  | analyze (query : Text)
  | recommendIndexes (query : Text)
deriving Repr, DecidableEq

inductive Response where
  | explained (outcome : Except ExplainError ExplainReport)
  | analyzed (analysis : Analysis)
  | recommended (indexes : Index.Recommendations)

/-- A rule over a run: what it is for the next plan, given the requests before. Nothing keeps the
rules that callers write from remembering those. -/
abbrev Conduct := List Request → Insight.Rule

/-- An advisor over a run. Whatever changes in it, changes in how its rules act. -/
structure Service where
  config : Config
  thresholds : Thresholds
  rules : List Conduct

def Service.advisorAfter (a : Service) (past : List Request) : Advisor :=
  (Advisor.new a.config).withInterpreter ⟨a.rules.map (· past), a.thresholds⟩

structure Session where
  service : Service
  past : List Request
  received : List Text

namespace Session

def start (a : Service) : Session := ⟨a, [], []⟩

def step (b : Behaviour) (s : Session) (r : Request) : Session × Response :=
  let a := s.service.advisorAfter s.past
  let next : Session := { s with past := s.past ++ [r] }
  match r with
  | .explain tag query =>
    let run := a.explain (b s.received) tag query
    ({ next with received := s.received ++ run.executed }, .explained run.outcome)
  | .analyze query => (next, .analyzed (a.analyze query))
  | .recommendIndexes query => (next, .recommended (a.recommendIndexes query))

def run (b : Behaviour) (s : Session) : List Request → Session × List Response
  | [] => (s, [])
  | r :: rs =>
    let (next, response) := s.step b r
    let (last, responses) := next.run b rs
    (last, response :: responses)

end Session

section Step

variable (a : Advisor) (answer : Executor) (tag query : Text)

end Step

namespace Session

def respond (a : Advisor) (answer : Executor) : Request → Response
  | .explain tag query => .explained (a.explain answer tag query).outcome
  | .analyze query => .analyzed (a.analyze query)
  | .recommendIndexes query => .recommended (a.recommendIndexes query)

section Runs

variable {b : Behaviour} {a : Service}

end Runs

end Session

end SqlReview
