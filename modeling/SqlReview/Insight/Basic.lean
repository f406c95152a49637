import SqlReview.Text.Basic

/-!
Insights about a plan, and the report that groups them by category. A report always holds all three
categories in reporting order.
-/
namespace SqlReview

namespace Insight

inductive Category where
  | majorConcerns
  | opportunities
  | goodPractices
deriving Repr, DecidableEq

def Category.all : List Category := [.majorConcerns, .opportunities, .goodPractices]

def Category.label : Category → Text
  | .majorConcerns => "Major Concerns"
  | .opportunities => "Optimization Opportunities"
  | .goodPractices => "Good Practices"

inductive Severity where
  | warning
  | info
  | success
deriving Repr, DecidableEq

def Severity.all : List Severity := [.warning, .info, .success]

def Severity.name : Severity → Text
  | .warning => "warning"
  | .info => "info"
  | .success => "success"

end Insight

structure Insight where
  category : Insight.Category
  severity : Insight.Severity
  message : Text
deriving Repr, DecidableEq

namespace Insight

def warning (category : Category) (message : Text) : Insight := ⟨category, .warning, message⟩

def info (category : Category) (message : Text) : Insight := ⟨category, .info, message⟩

def success (category : Category) (message : Text) : Insight := ⟨category, .success, message⟩

/-- Insights in the order in which they came, each category by itself. -/
structure Report where
  majorConcerns : List Insight
  opportunities : List Insight
  goodPractices : List Insight
deriving Repr, DecidableEq

namespace Report

def empty : Report := ⟨[], [], []⟩

def push (r : Report) (i : Insight) : Report :=
  match i.category with
  | .majorConcerns => { r with majorConcerns := r.majorConcerns ++ [i] }
  | .opportunities => { r with opportunities := r.opportunities ++ [i] }
  | .goodPractices => { r with goodPractices := r.goodPractices ++ [i] }

def get (r : Report) : Category → List Insight
  | .majorConcerns => r.majorConcerns
  | .opportunities => r.opportunities
  | .goodPractices => r.goodPractices

def groups (r : Report) : List (Category × List Insight) :=
  Category.all.map fun category => (category, r.get category)

def size (r : Report) : Nat := r.groups.foldr (fun group total => group.2.length + total) 0

def isEmpty (r : Report) : Bool := r.size == 0

def ofList (is : List Insight) : Report := is.foldl push empty

end Report

end Insight

end SqlReview
