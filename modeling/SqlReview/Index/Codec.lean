import SqlReview.Index.Recommendation
import SqlReview.Record.Document

/-!
Index recommendations as documents: an object of tables, each an object of its indexes.
-/
namespace SqlReview.Index

variable {V : Type} [Document V]

def Recommendation.toJson (r : Recommendation) : Json :=
  .ofFields [("columns", .ofTexts r.columns), ("reason", .string r.reason),
    ("create_statement", .string r.createStatement)]

def Recommendation.read? (v : V) : Option Recommendation := do
  let m ← Record.members? 3 v
  let columns ← m.required "columns" 0 (Record.list? Document.text?)
  let reason ← m.required "reason" 1 Document.text?
  let createStatement ← m.required "create_statement" 2 Document.text?
  some { columns, reason, createStatement }

def readFields? {α : Type} (read : V → Option α) (v : V) : Option (List (Text × α)) :=
  (Document.fields? v).bind fun fields =>
    fields.mapM fun (key, value) => (read value).map fun a => (key, a)

def Recommendations.read? (v : V) : Option Recommendations :=
  (readFields? (readFields? Recommendation.read?) v).map Recommendations.mk

end SqlReview.Index
