import SqlReview.Query.Condition

/-!
The items of the first ORDER BY clause, each with the direction it was written with.
-/
namespace SqlReview.Query

def orderClause? (query : Text) : Option Text :=
  ((Pattern.phrase "ORDER" "BY").first? query).map fun found => upTo (.word "LIMIT") found.after

def orderItems (query : Text) : List Text :=
  match orderClause? query with
  | some clause => trimmedPieces (Text.pieces ',' clause)
  | none => []

end SqlReview.Query
