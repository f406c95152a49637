import SqlReview.Text.Pattern

/-!
The conditions of the first WHERE clause. They are found by words alone: the clause is cut at every
AND and OR, parentheses or not.
-/
namespace SqlReview.Query

def conditionEnd : Pattern :=
  .oneOf [.phrase "GROUP" "BY", .phrase "ORDER" "BY", .word "LIMIT"]

def connector : Pattern := .oneOf [.word "AND", .word "OR"]

/-- The text up to the first place that a pattern covers, or all of it. -/
def upTo (p : Pattern) (s : Text) : Text :=
  match p.first? s with
  | some found => found.before
  | none => s

def whereClause? (query : Text) : Option Text :=
  ((Pattern.word "WHERE").first? query).map fun found => upTo conditionEnd found.after

/-- The trimmed pieces of a list; pieces without any text do not count. -/
def trimmedPieces (pieces : List Text) : List Text :=
  (pieces.map Text.trim).filter fun piece => !piece.isEmpty

def conditions (query : Text) : List Text :=
  match whereClause? query with
  | some clause => trimmedPieces (connector.split (Text.trim clause))
  | none => []

end SqlReview.Query
