import SqlReview.Toml.Value

/-!
Tables while a document is read. How a table came about decides who may still add to it: a header
opens a table once, and a dotted key adds only to tables that dotted keys made.
-/
namespace SqlReview.Toml

inductive Origin where
  /-- By its own header, or as an element of a list of tables. -/
  | opened
  /-- On the way to the table of some header. -/
  | implied
  /-- On the way of a dotted key. -/
  | dotted
deriving Repr, DecidableEq

inductive Item where
  | value (v : Toml)
  | table (origin : Origin) (fields : List (Text × Item))
  | tables (elements : List (List (Text × Item)))

abbrev Items := List (Text × Item)

def Items.find (key : Text) (items : Items) : Option Item :=
  (items.find? fun entry => entry.1 = key).map (·.2)

def Items.replace (key : Text) (item : Item) (items : Items) : Items :=
  items.map fun entry => if entry.1 = key then (key, item) else entry

/-- Changes the table at the end of a path, making those on the way that are missing. The last of a
list of tables stands for the list. A dotted path may not pass a table that was opened. -/
def update (byDots : Bool) (change : Origin → Items → Option (Origin × Items)) :
    (path : List Text) → Origin → Items → Option (Origin × Items)
  | [], origin, items => change origin items
  | key :: path, origin, items =>
    match Items.find key items with
    | none => do
      let (made, inner) ← update byDots change path (if byDots then .dotted else .implied) []
      some (origin, items ++ [(key, .table made inner)])
    | some (.value _) => none
    | some (.table found inner) =>
      if byDots ∧ found = .opened then none
      else do
        let (found, inner) ← update byDots change path found inner
        some (origin, items.replace key (.table found inner))
    | some (.tables elements) =>
      match elements.getLast? with
      | none => none
      | some inner => do
        let (_, inner) ← update byDots change path .opened inner
        some (origin, items.replace key (.tables (elements.dropLast ++ [inner])))

def openTable (path : List Text) (key : Text) (root : Items) : Option Items :=
  (update false
    (fun origin items =>
      match Items.find key items with
      | none => some (origin, items ++ [(key, .table .opened [])])
      | some (.table .implied inner) => some (origin, items.replace key (.table .opened inner))
      | some _ => none)
    path .opened root).map (·.2)

def openElement (path : List Text) (key : Text) (root : Items) : Option Items :=
  (update false
    (fun origin items =>
      match Items.find key items with
      | none => some (origin, items ++ [(key, .tables [[]])])
      | some (.tables elements) => some (origin, items.replace key (.tables (elements ++ [[]])))
      | some _ => none)
    path .opened root).map (·.2)

/-- Puts a value under a dotted key of a table; the last table on the way has to be one that dotted
keys made. -/
def putDotted (path : List Text) (key : Text) (value : Toml) (origin : Origin) (items : Items) :
    Option (Origin × Items) :=
  update true
    (fun origin items =>
      if (origin = .dotted) = path.isEmpty then none
      else
        match Items.find key items with
        | none => some (origin, items ++ [(key, .value value)])
        | some _ => none)
    path origin items

def putUnder (header path : List Text) (key : Text) (value : Toml) (root : Items) : Option Items :=
  (update false (putDotted path key value) header .opened root).map (·.2)

mutual

def Item.toToml : Item → Toml
  | .value v => v
  | .table _ fields => .table (fieldsToToml fields)
  | .tables elements => .array (elementsToToml elements)

def fieldsToToml : List (Text × Item) → List (Text × Toml)
  | [] => []
  | (key, item) :: fields => (key, item.toToml) :: fieldsToToml fields

def elementsToToml : List (List (Text × Item)) → List Toml
  | [] => []
  | fields :: elements => .table (fieldsToToml fields) :: elementsToToml elements

end

end SqlReview.Toml
