import SqlReview.Complexity
import SqlReview.Record.Document

/-!
Complexity factors as documents, each by its display name.
-/
namespace SqlReview.Factor

def toJson (factor : Factor) : Json := .string factor.name

def read? {V : Type} [Document V] (v : V) : Option Factor := Record.choice? all name v

end SqlReview.Factor
