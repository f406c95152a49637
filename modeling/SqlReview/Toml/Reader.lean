import SqlReview.Toml.Number
import SqlReview.Toml.Quoted
import SqlReview.Toml.Table

/-!
Reading TOML documents. The fuel of a reader is spent by every step and starts above the number of
steps that the text allows.
-/
namespace SqlReview.Toml

def skipSpaces (s : Text) : Text := s.dropWhile isSpace

def afterComment? (s : Text) : Option Text :=
  match s with
  | '#' :: s => some (s.dropWhile isPrintable)
  | _ => none

def skipFiller : (fuel : Nat) → Text → Text
  | 0, s => s
  | fuel + 1, s =>
    let s := skipSpaces s
    match (afterBreak? s).or (afterComment? s) with
    | some rest => skipFiller fuel rest
    | none => s

def afterLine? (s : Text) : Option Text :=
  let s := skipSpaces s
  let s := (afterComment? s).getD s
  match s with
  | [] => some []
  | s => afterBreak? s

def isBareKeyPart (c : Char) : Bool :=
  Text.isAsciiLetter c || Text.isAsciiDigit c || c == '_' || c == '-'

def simpleKey? (s : Text) : Option (Text × Text) :=
  match s.takeWhile isBareKeyPart with
  | [] => simpleString? s
  | key => some (key, s.dropWhile isBareKeyPart)

def key? : (fuel : Nat) → Text → Option (List Text × Text)
  | 0, _ => none
  | fuel + 1, s =>
    (simpleKey? (skipSpaces s)).bind fun (key, s) =>
      match skipSpaces s with
      | '.' :: rest => (key? fuel rest).map fun (keys, after) => (key :: keys, after)
      | rest => some ([key], rest)

/-- Arrays, inline tables and the parts of a key nest less deep than this. -/
def maxDepth : Nat := 80

def path? (s : Text) : Option (List Text × Text) :=
  (key? s.length s).bind fun (keys, rest) =>
    if keys.length < maxDepth then some (keys, rest) else none

mutual

def value? : (fuel depth : Nat) → Text → Option (Toml × Text)
  | 0, _, _ => none
  | fuel + 1, depth, s =>
    match s with
    | [] => none
    | c :: r =>
      if c = '"' ∨ c = '\'' then (string? s).map fun (t, rest) => (.text t, rest)
      else if c = '[' then
        if depth + 1 < maxDepth then
          (arrayItems? fuel (depth + 1) r).map fun (items, rest) => (.array items, rest)
        else none
      else if c = '\x7b' then
        if depth + 1 < maxDepth then
          match skipSpaces r with
          | '\x7d' :: rest => some (.table [], rest)
          | _ => (inlineFields? fuel (depth + 1) [] r).map fun (items, rest) =>
              (.table (fieldsToToml items), rest)
        else none
      else if ("true" : Text).isPrefixOf s then some (.flag true, s.drop 4)
      else if ("false" : Text).isPrefixOf s then some (.flag false, s.drop 5)
      else number? s

/-- The rest of an array; a comma may stand before its end. -/
def arrayItems? : (fuel depth : Nat) → Text → Option (List Toml × Text)
  | 0, _, _ => none
  | fuel + 1, depth, s =>
    match skipFiller s.length s with
    | ']' :: rest => some ([], rest)
    | s =>
      (value? fuel depth s).bind fun (v, s) =>
        match skipFiller s.length s with
        | ',' :: rest => (arrayItems? fuel depth rest).map fun (vs, after) => (v :: vs, after)
        | ']' :: rest => some ([v], rest)
        | _ => none

def inlineFields? : (fuel depth : Nat) → Items → Text → Option (Items × Text)
  | 0, _, _, _ => none
  | fuel + 1, depth, items, s =>
    (path? s).bind fun (keys, s) =>
      match s, keys.getLast? with
      | '=' :: s, some last =>
        (value? fuel depth (skipSpaces s)).bind fun (v, s) =>
          (putDotted keys.dropLast last v .opened items).bind fun (_, items) =>
            match skipSpaces s with
            | ',' :: rest => inlineFields? fuel depth items rest
            | '\x7d' :: rest => some (items, rest)
            | _ => none
      | _, _ => none

end

def header? (s : Text) : Option (List Text × Bool × Text) :=
  match s with
  | '[' :: '[' :: s =>
    (path? s).bind fun (keys, s) =>
      match s with
      | ']' :: ']' :: rest => some (keys, true, rest)
      | _ => none
  | '[' :: s =>
    (path? s).bind fun (keys, s) =>
      match s with
      | ']' :: rest => some (keys, false, rest)
      | _ => none
  | _ => none

def line? (header : List Text) (root : Items) (s : Text) : Option (List Text × Items × Text) :=
  if s.head? = some '[' then do
    let (keys, isList, s) ← header? s
    let last ← keys.getLast?
    let rest ← afterLine? s
    let root ← if isList then openElement keys.dropLast last root
      else openTable keys.dropLast last root
    some (keys, root, rest)
  else do
    let (keys, s) ← path? s
    let last ← keys.getLast?
    let s ← mark? '=' s
    let s := skipSpaces s
    let (v, s) ← value? (2 * s.length + 1) 0 s
    let rest ← afterLine? s
    let root ← putUnder header keys.dropLast last v root
    some (header, root, rest)

def lines? : (fuel : Nat) → (header : List Text) → Items → Text → Option Items
  | 0, _, _, _ => none
  | fuel + 1, header, root, s =>
    match skipFiller s.length s with
    | [] => some root
    | s => (line? header root s).bind fun (header, root, rest) => lines? fuel header root rest

/-- The table that a document spells; a byte order mark before it does not count. -/
def parse? (s : Text) : Option Toml :=
  let s := if s.head?.any (·.toNat = 0xFEFF) then s.tail else s
  (lines? (s.length + 1) [] [] s).map fun root => .table (fieldsToToml root)

end SqlReview.Toml
