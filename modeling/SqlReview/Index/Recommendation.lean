import SqlReview.Index.Candidate

/-!
Index recommendations, grouped by table. Tables and their indexes keep the order in which they were
first recommended, and the first recommendation of an index wins.
-/
namespace SqlReview.Index

open Query

structure Recommendation where
  columns : List Text
  reason : Text
  createStatement : Text
deriving Repr, DecidableEq

def indexName (table column : Text) : Text := "idx_" ++ table ++ "_" ++ column

def createStatement (index table column : Text) : Text :=
  "CREATE INDEX " ++ index ++ " ON " ++ table ++ " (" ++ column ++ ");"

def Candidate.recommendation (c : Candidate) : Recommendation :=
  ⟨[c.column], c.reason, createStatement (indexName c.table c.column) c.table c.column⟩

/-- Puts an entry at the end unless its key is there already. -/
def putFirst {α : Type} (key : Text) (value : α) : List (Text × α) → List (Text × α)
  | [] => [(key, value)]
  | entry :: entries =>
    if entry.1 = key then entry :: entries else entry :: putFirst key value entries

abbrev TableIndexes := List (Text × Recommendation)

structure Recommendations where
  groups : List (Text × TableIndexes)
deriving Repr, DecidableEq

namespace Recommendations

def empty : Recommendations := ⟨[]⟩

def insertInto (c : Candidate) : List (Text × TableIndexes) → List (Text × TableIndexes)
  | [] => [(c.table, [(indexName c.table c.column, c.recommendation)])]
  | (table, indexes) :: groups =>
    if table = c.table then
      (table, putFirst (indexName c.table c.column) c.recommendation indexes) :: groups
    else (table, indexes) :: insertInto c groups

def insertFirst (r : Recommendations) (c : Candidate) : Recommendations := ⟨insertInto c r.groups⟩

def ofFacts (facts : Facts) : Recommendations := (candidates facts).foldl insertFirst empty

def forTable? (r : Recommendations) (table : Text) : Option TableIndexes :=
  (r.groups.find? fun group => group.1 = table).map (·.2)

def get? (r : Recommendations) (table index : Text) : Option Recommendation :=
  (r.forTable? table).bind fun indexes => (indexes.find? fun entry => entry.1 = index).map (·.2)

def toList (r : Recommendations) : List (Text × Text × Recommendation) :=
  r.groups.flatMap fun (table, indexes) => indexes.map fun (index, rec) => (table, index, rec)

def tables (r : Recommendations) : List Text := r.groups.map (·.1)

def size (r : Recommendations) : Nat :=
  r.groups.foldr (fun group total => group.2.length + total) 0

def isEmpty (r : Recommendations) : Bool := r.size == 0

def createStatements (r : Recommendations) : List Text :=
  r.toList.map fun (_, _, rec) => rec.createStatement

end Recommendations

end SqlReview.Index
