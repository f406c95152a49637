import SqlReview.Sql.Token

/-!
Tables and columns that a query refers to. Each SELECT and FROM outside parentheses opens a group
of tokens that ends at the next clause; a group is cut at its commas, and the last word of each
piece is the reference, so an alias wins over the name it stands for.
-/
namespace SqlReview.Query

open Sql

def clauseEnders : List Text :=
  (["EXCEPT", "FETCH", "FOR", "FROM", "GROUP", "HAVING", "INTERSECT", "INTO", "LIMIT", "OFFSET",
    "ORDER", "RETURNING", "SET", "UNION", "VALUES", "WHERE", "WINDOW"] : List String).map
    String.toList

/-- Keywords that separate tables as a comma does. -/
def joinWords : List Text :=
  (["JOIN", "INNER", "LEFT", "RIGHT", "FULL", "OUTER", "CROSS", "NATURAL"] : List String).map
    String.toList

inductive Clause where
  | select
  | from_
deriving Repr, DecidableEq

/-- How far the reading of a group has come: the parentheses that are open, whether all its text
so far is blank, and whether it stands in the predicate of a join. -/
structure GroupState where
  depth : Nat
  leading : Bool
  inPredicate : Bool
deriving Repr, DecidableEq

def GroupState.start : GroupState := ⟨0, true, false⟩

def nest (depth : Nat) (t : Token) : Nat :=
  if t.isPunctuation '(' then depth + 1
  else if t.isPunctuation ')' then depth - 1
  else depth

/-- Whether a token outside the group's own parentheses ends the group. -/
def endsGroup (t : Token) : Bool :=
  t.isPunctuation ';' || t.isAnyKeyword clauseEnders || t.isPunctuation ')'

/-- A token's contribution to the text of its group and the state after it; none at the end of the
group. Nothing in a join's predicate contributes. -/
def GroupState.step (clause : Clause) (state : GroupState) (t : Token) :
    Option (Text × GroupState) :=
  let add (text : Text) : Option (Text × GroupState) :=
    some (text, ⟨nest state.depth t, state.leading && text.all Text.isBlank, state.inPredicate⟩)
  let plain := add (if state.inPredicate then [] else t.text)
  if state.depth = 0 then
    if endsGroup t then none
    else
      match clause with
      | .select =>
        if state.leading && (t.isKeyword "DISTINCT" || t.isKeyword "ALL") then some ([], state)
        else plain
      | .from_ =>
        if t.isKeyword "ON" || t.isKeyword "USING" then
          some ([], { state with inPredicate := true })
        else if t.isPunctuation ',' || t.isAnyKeyword joinWords then
          some ([','], ⟨0, false, false⟩)
        else plain
  else plain

def collectGroup (clause : Clause) : GroupState → List Token → Text × List Token
  | _, [] => ([], [])
  | state, t :: ts =>
    match state.step clause t with
    | none => ([], t :: ts)
    | some (text, next) =>
      let (group, rest) := collectGroup clause next ts
      (text ++ group, rest)

theorem collectGroup_length (clause : Clause) (state : GroupState) (ts : List Token) :
    (collectGroup clause state ts).2.length ≤ ts.length := by
  induction ts generalizing state with
  | nil => simp [collectGroup]
  | cons t ts ih =>
    simp only [collectGroup]
    split
    · exact Nat.le_refl _
    · exact Nat.le_succ_of_le (ih _)

/-- The last word of every piece between commas; a blank piece has none. -/
def references (group : Text) : List Text :=
  (Text.pieces ',' group).filterMap fun piece => (Text.words piece).getLast?

structure References where
  tables : List Text
  columns : List Text
deriving Repr, DecidableEq

namespace References

/-- Reads the groups outside parentheses, `depth` of which are open. A closing parenthesis too many
is passed over. -/
def ofTokensFrom (depth : Nat) (ts : List Token) : References :=
  match ts with
  | [] => ⟨[], []⟩
  | t :: ts =>
    if t.isPunctuation '(' || t.isPunctuation ')' then ofTokensFrom (nest depth t) ts
    else if depth = 0 ∧ t.isKeyword "SELECT" then
      let later := ofTokensFrom depth (collectGroup .select .start ts).2
      { later with
        columns := references (collectGroup .select .start ts).1 ++ later.columns }
    else if depth = 0 ∧ t.isKeyword "FROM" then
      let later := ofTokensFrom depth (collectGroup .from_ .start ts).2
      { later with
        tables := references (collectGroup .from_ .start ts).1 ++ later.tables }
    else ofTokensFrom depth ts
termination_by ts.length
decreasing_by
  · simp
  · have := collectGroup_length .select .start ts
    simp only [List.length_cons]
    omega
  · have := collectGroup_length .from_ .start ts
    simp only [List.length_cons]
    omega
  · simp

def ofTokens (ts : List Token) : References := ofTokensFrom 0 ts

/-- A query that cannot be cut into tokens refers to nothing. -/
def ofQuery (query : Text) : References :=
  match tokenize query with
  | .ok ts => ofTokens ts
  | .error _ => ⟨[], []⟩

end References

end SqlReview.Query
