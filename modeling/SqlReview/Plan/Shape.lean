import SqlReview.Json.Weight
import SqlReview.Json.Printer

/-!
What every reader of plans shares: the faults a plan can have, row estimates, and the wrappings that
a driver may put around the document of a plan.
-/
namespace SqlReview.Plan

inductive ShapeError where
  | noPlan
  | noQueryBlock
  | noDetail
  /-- A string that should hold a document holds the text `s`, which is no JSON. -/
  | notJson {s : Text}
  | noNodeType
  | loopNotArray
  | loopEmpty
  | noRows
  | badRow (row : Json)
deriving Repr, BEq

namespace ShapeError

def missing (part : Text) : Text := "Missing " ++ part ++ " in EXPLAIN output"

def invalid (detail : Text) : Text := "Invalid plan structure: " ++ detail

/-- The parser of JSON is not part of this library; `fault` words what it has against a text. -/
def message (e : ShapeError) (fault : Text → Text := fun _ => []) : Text :=
  match e with
  | .noPlan => missing "Plan object"
  | .noQueryBlock => missing "query_block"
  | .noDetail => missing "detail column"
  | .notJson (s := s) => "Invalid plan JSON: " ++ fault s
  | .noNodeType => invalid "Missing Node Type"
  | .loopNotArray => invalid "nested_loop is not an array"
  | .loopEmpty => invalid "Empty nested_loop"
  | .noRows => invalid "expected query plan rows"
  | .badRow row => invalid ("unexpected query plan row: " ++ row.text)

end ShapeError

def naturalText? (s : Text) : Option Nat :=
  let digits := match s with
    | '+' :: digits => digits
    | digits => digits
  if !digits.isEmpty && digits.all Text.isAsciiDigit && Text.valueIn 10 digits ≤ Numeral.maxNatural
  then some (Text.valueIn 10 digits) else none

/-- A row estimate: a whole number, any other number that is not negative, rounded and held within
64 bits, or a string of digits. -/
def readRows? : Option Json → Option Nat
  | some (.number (.natural n)) => some n
  | some (.number (.real x)) =>
    if x.negative && !x.isZero then none else some (min Numeral.maxNatural x.roundAbs)
  | some (.string s) => naturalText? (Text.trim s)
  | _ => none

/-- How a driver delivers a plan: the member that holds it, the result column that may hold the
document, and the fault when there is neither. -/
structure Wrapping where
  member : Text
  column : Text
  absent : ShapeError

/-- Looks through strings that hold JSON text, result columns and first rows for the member. -/
def Wrapping.unwrap (w : Wrapping) (v : Json) : Except ShapeError Json :=
  match v with
  | .string s =>
    match _h : Json.parse? (Text.trim s) with
    | some inner => w.unwrap inner
    | none => .error (.notJson (s := Text.trim s))
  | .array (first :: _) => w.unwrap first
  | .object fields =>
    match (Json.object fields).get? w.member with
    | some plan => .ok plan
    | none =>
      match _h : (Json.object fields).get? w.column with
      | some inner => w.unwrap inner
      | none => .error w.absent
  | _ => .error w.absent
termination_by v.weight
decreasing_by
  · have := Json.parse?_weight _h
    have := Text.trim_length_le s
    simp only [Json.weight]
    omega
  · exact Json.weight_lt_of_mem (List.mem_cons_self ..)
  · exact Json.weight_get?_lt _h

end SqlReview.Plan
