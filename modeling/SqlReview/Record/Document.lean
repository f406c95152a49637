import SqlReview.Json.Value

/-!
Reading typed data out of a document of any format. A record is given by its members' names or as a
list of all its members in order; members that are not known are passed over.
-/
namespace SqlReview

class Document (V : Type) where
  fields? : V → Option (List (Text × V))
  items? : V → Option (List V)
  text? : V → Option Text
  flag? : V → Option Bool
  /-- A whole number that is not negative and fits 64 bits. -/
  natural? : V → Option Nat
  isNull : V → Bool
  /-- What may stand beside the name of a choice that carries nothing. -/
  isNothing : V → Bool

namespace Record

variable {V : Type} [Document V] {α : Type}

inductive Members (V : Type) where
  | named (fields : List (Text × V))
  | placed (items : List V)

/-- A list of more than `count` members is no record. -/
def members? (count : Nat) (v : V) : Option (Members V) :=
  match Document.fields? v with
  | some fields => some (.named fields)
  | none =>
    match Document.items? v with
    | some items => if items.length ≤ count then some (.placed items) else none
    | none => none

namespace Members

def get? (name : Text) (place : Nat) : Members V → Option V
  | .named fields => (fields.find? fun entry => entry.1 = name).map (·.2)
  | .placed items => items[place]?

def required (name : Text) (place : Nat) (read : V → Option α) (m : Members V) : Option α :=
  (m.get? name place).bind read

/-- A member that may be null, or missing where members have names. -/
def optional (name : Text) (place : Nat) (read : V → Option α) (m : Members V) :
    Option (Option α) :=
  match m.get? name place, m with
  | some v, _ => if Document.isNull v then some none else (read v).map some
  | none, .named _ => some none
  | none, .placed _ => none

def defaulted (name : Text) (place : Nat) (default : α) (read : V → Option α) (m : Members V) :
    Option α :=
  match m.get? name place with
  | some v => read v
  | none => some default

end Members

/-- One of several named choices: its name, or a record of that one name with nothing beside it. -/
def choice? (all : List α) (name : α → Text) (v : V) : Option α :=
  match Document.text? v, Document.fields? v with
  | some s, _ => all.find? fun a => name a == s
  | none, some [(s, payload)] =>
    if Document.isNothing payload then all.find? fun a => name a == s else none
  | none, _ => none

def list? (read : V → Option α) (v : V) : Option (List α) :=
  (Document.items? v).bind fun items => items.mapM read

end Record

instance : Document Json where
  fields? := Json.fields?
  items? := Json.items?
  text? := Json.text?
  flag? := Json.flag?
  natural? := Json.natural?
  isNull := fun j => j matches .null
  isNothing := fun j => j matches .null

end SqlReview
