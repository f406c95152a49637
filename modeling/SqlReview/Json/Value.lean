import SqlReview.Number.Shortest

/-!
JSON values. The fields of an object are sorted by their keys, which are distinct when the object
was built with `Fields.put`.
-/
namespace SqlReview

/-- Whole numbers are kept as such while they fit 64 bits, with or without a sign. -/
inductive Numeral where
  | natural (n : Nat)
  | negative (n : Nat)
  | real (x : Binary64)
deriving Repr, DecidableEq

namespace Numeral

def maxNatural : Nat := 18446744073709551615

def maxInteger : Nat := 9223372036854775807

end Numeral

inductive Json where
  | null
  | bool (b : Bool)
  | number (n : Numeral)
  | string (s : Text)
  | array (items : List Json)
  | object (fields : List (Text × Json))
deriving Repr, BEq

namespace Json

abbrev Fields := List (Text × Json)

def keyBefore : Text → Text → Bool
  | _, [] => false
  | [], _ :: _ => true
  | a :: s, b :: t => a < b || (a == b && keyBefore s t)

/-- A field put in its place; an older one of the same key is lost. -/
def Fields.put (key : Text) (value : Json) : Fields → Fields
  | [] => [(key, value)]
  | entry :: fields =>
    if key = entry.1 then (key, value) :: fields
    else if keyBefore key entry.1 then (key, value) :: entry :: fields
    else entry :: Fields.put key value fields

def ofFields (fields : List (Text × Json)) : Json :=
  .object (fields.foldl (fun all entry => Fields.put entry.1 entry.2 all) [])

def ofNat (n : Nat) : Json := .number (.natural n)

def ofTexts (ts : List Text) : Json := .array (ts.map .string)

def ofOption {α : Type} (encode : α → Json) : Option α → Json
  | some a => encode a
  | none => .null

def fields? : Json → Option Fields
  | .object fields => some fields
  | _ => none

def items? : Json → Option (List Json)
  | .array items => some items
  | _ => none

def text? : Json → Option Text
  | .string s => some s
  | _ => none

def flag? : Json → Option Bool
  | .bool b => some b
  | _ => none

def get? (key : Text) : Json → Option Json
  | .object fields => (fields.find? fun entry => entry.1 = key).map (·.2)
  | _ => none

def getText? (key : Text) (j : Json) : Option Text := (j.get? key).bind text?

def getFlag? (key : Text) (j : Json) : Option Bool := (j.get? key).bind flag?

def getItems? (key : Text) (j : Json) : Option (List Json) := (j.get? key).bind items?

def natural? : Json → Option Nat
  | .number (.natural n) => some n
  | _ => none

def integer? : Json → Option Int
  | .number (.natural n) => if n ≤ Numeral.maxInteger then some n else none
  | .number (.negative n) => some (-n)
  | _ => none

end Json

end SqlReview
