import SqlReview.Sql.Token

/-!
The kind of a statement, told by its first keyword. A list of common table expressions is looked
through to the statement behind it.
-/
namespace SqlReview.Sql

inductive StatementKind where
  | select
  | insert
  | update
  | delete
  | create
  | alter
  | drop
  | with_
  | unknown
deriving Repr, DecidableEq

namespace StatementKind

def all : List StatementKind :=
  [.select, .insert, .update, .delete, .create, .alter, .drop, .with_, .unknown]

def keyword : StatementKind → Text
  | .select => "SELECT"
  | .insert => "INSERT"
  | .update => "UPDATE"
  | .delete => "DELETE"
  | .create => "CREATE"
  | .alter => "ALTER"
  | .drop => "DROP"
  | .with_ => "WITH"
  | .unknown => "UNKNOWN"

def name (kind : StatementKind) : Text := Text.lower kind.keyword

def ofKeyword (word : Text) : StatementKind :=
  (all.find? fun kind => kind != .unknown && kind.keyword == Text.upper word).getD .unknown

/-- Whether the kind can follow a list of common table expressions. -/
def readsOrWrites : StatementKind → Bool
  | .select | .insert | .update | .delete => true
  | _ => false

/-- The first keyword outside parentheses that starts a statement of its own. A closing
parenthesis too many is passed over. -/
def afterExpressions : (depth : Nat) → List Token → StatementKind
  | _, [] => .with_
  | depth, t :: ts =>
    if t.isPunctuation '(' then afterExpressions (depth + 1) ts
    else if t.isPunctuation ')' then afterExpressions (depth - 1) ts
    else if depth = 0 ∧ t.kind = .keyword ∧ (ofKeyword t.text).readsOrWrites then
      ofKeyword t.text
    else afterExpressions depth ts

/-- Leading blanks, comments and opening parentheses are passed over. -/
def ofTokens (ts : List Token) : StatementKind :=
  match ts.dropWhile fun t => t.isWhitespace || t.isPunctuation '(' with
  | [] => .unknown
  | t :: rest =>
    if t.kind = .keyword then
      match ofKeyword t.text with
      | .with_ => afterExpressions 0 rest
      | kind => kind
    else .unknown

/-- A query that cannot be cut into tokens is of unknown kind. -/
def ofQuery (query : Text) : StatementKind :=
  match tokenize query with
  | .ok ts => ofTokens ts
  | .error _ => .unknown

end StatementKind

end SqlReview.Sql
