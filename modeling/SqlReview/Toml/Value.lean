import SqlReview.Number.Binary64
import SqlReview.Record.Document

/-!
TOML values. A table keeps its members in the order of the text; their keys are distinct.
-/
namespace SqlReview

inductive TomlReal where
  | finite (x : Binary64)
  | infinite (negative : Bool)
  | nan
deriving Repr, DecidableEq

inductive Toml where
  | text (s : Text)
  | integer (n : Int)
  | real (x : TomlReal)
  | flag (b : Bool)
  /-- A date, a time or both, as written. -/
  | moment (written : Text)
  | array (items : List Toml)
  | table (fields : List (Text × Toml))
deriving Repr, BEq

/-- A moment passes for a record none of whose members is known; nothing but an empty table or array
stands beside the name of a choice. -/
instance : Document Toml where
  fields? := fun
    | .table fields => some fields
    | .moment _ => some []
    | _ => none
  items? := fun
    | .array items => some items
    | _ => none
  text? := fun
    | .text s => some s
    | _ => none
  flag? := fun
    | .flag b => some b
    | _ => none
  natural? := fun
    | .integer (.ofNat n) => some n
    | _ => none
  isNull := fun _ => false
  isNothing := fun
    | .table [] | .array [] => true
    | _ => false

end SqlReview
