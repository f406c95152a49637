import SqlReview.Insight.Basic
import SqlReview.Record.Document

/-!
Insights as documents.
-/
namespace SqlReview.Insight

variable {V : Type} [Document V]

def Category.toJson (category : Category) : Json := .string category.label

def Category.read? (v : V) : Option Category := Record.choice? Category.all Category.label v

def Severity.toJson (severity : Severity) : Json := .string severity.name

def Severity.read? (v : V) : Option Severity := Record.choice? Severity.all Severity.name v

def toJson (i : Insight) : Json :=
  .ofFields [("category", i.category.toJson), ("severity", i.severity.toJson),
    ("message", .string i.message)]

def read? (v : V) : Option Insight := do
  let m ← Record.members? 3 v
  let category ← m.required "category" 0 Category.read?
  let severity ← m.required "severity" 1 Severity.read?
  let message ← m.required "message" 2 Document.text?
  some { category, severity, message }

def Report.toJson (r : Report) : Json :=
  .ofFields (r.groups.map fun (category, insights) =>
    (category.label, .array (insights.map Insight.toJson)))

end SqlReview.Insight
