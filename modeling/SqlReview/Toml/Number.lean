import SqlReview.Text.CharClass
import SqlReview.Toml.Value

/-!
TOML integers, reals and moments. Each reader gives the value that the text begins with and the text
after it.
-/
namespace SqlReview.Toml

def digitsFrom (isDigit : Char → Bool) : Text → Text × Text
  | [] => ([], [])
  | [c] => if isDigit c then ([c], []) else ([], [c])
  | c :: d :: s =>
    if isDigit c then
      let (digits, rest) := digitsFrom isDigit (d :: s)
      (c :: digits, rest)
    else if c = '_' ∧ isDigit d then digitsFrom isDigit (d :: s)
    else ([], c :: d :: s)

def digits? (isDigit : Char → Bool) (s : Text) : Option (Text × Text) :=
  if s.head?.any isDigit then some (digitsFrom isDigit s) else none

def sign : Text → Bool × Text
  | '-' :: s => (true, s)
  | '+' :: s => (false, s)
  | s => (false, s)

def decimal? (s : Text) : Option (Text × Text) :=
  match s with
  | '0' :: s => some (['0'], s)
  | s => digits? Text.isAsciiDigit s

def inRange? (n : Int) : Option Toml :=
  if -9223372036854775808 ≤ n ∧ n ≤ 9223372036854775807 then some (.integer n) else none

def based? (base : Nat) (isDigit : Char → Bool) (s : Text) : Option (Toml × Text) := do
  let (digits, rest) ← digits? isDigit s
  let n ← inRange? (Text.valueIn base digits)
  some (n, rest)

def integer? (s : Text) : Option (Toml × Text) :=
  match s with
  | '0' :: 'x' :: s => based? 16 Text.isHexDigit s
  | '0' :: 'o' :: s => based? 8 (fun c => '0' ≤ c && c ≤ '7') s
  | '0' :: 'b' :: s => based? 2 (fun c => c == '0' || c == '1') s
  | s => do
    let (minus, s) := sign s
    let (digits, rest) ← decimal? s
    let value : Int := Text.valueIn 10 digits
    let n ← inRange? (if minus then -value else value)
    some (n, rest)

/-- The real nearest to `digits · 10 ^ exponent`. One far beyond all reals is infinite and one far
below all but zero is zero, whatever the exponent. -/
def realOf (minus : Bool) (digits : Text) (exponent : Int) : TomlReal :=
  let value := Text.valueIn 10 digits
  let signed (x : Binary64) : TomlReal := .finite (if minus then x.negate else x)
  let magnitude := exponent + (Nat.toDigits 10 value).length
  if value = 0 ∨ magnitude < -400 then signed .zero
  else if 400 < magnitude then .infinite minus
  else
    let found := if 0 ≤ exponent then Binary64.nearest? (value * Nat.pow 10 exponent.toNat) 1 0
      else Binary64.nearest? value (Nat.pow 10 (-exponent).toNat) 0
    match found with
    | some x => signed x
    | none => .infinite minus

def fraction? : Text → Option (Text × Text)
  | '.' :: s => digits? Text.isAsciiDigit s
  | _ => none

def exponent? : Text → Option (Int × Text)
  | c :: s =>
    if c = 'e' ∨ c = 'E' then do
      let (minus, s) := sign s
      let (digits, rest) ← digits? Text.isAsciiDigit s
      let value : Int := Text.valueIn 10 digits
      some (if minus then -value else value, rest)
    else none
  | [] => none

/-- A decimal with a fraction, an exponent or both. A positive one may not be too large to be
finite. -/
def decimalReal? (s : Text) : Option (Toml × Text) := do
  let (minus, s) := sign s
  let (whole, s) ← decimal? s
  let (fraction, hasFraction, s) := match fraction? s with
    | some (digits, rest) => (digits, true, rest)
    | none => ([], false, s)
  let (exponent, hasExponent, s) := match exponent? s with
    | some (e, rest) => (e, true, rest)
    | none => (0, false, s)
  if hasFraction || hasExponent then
    let x := realOf minus (whole ++ fraction) (exponent - fraction.length)
    if x = .infinite false then none else some (.real x, s)
  else none

def specialReal? (s : Text) : Option (Toml × Text) :=
  let (minus, s) := sign s
  if ("inf" : Text).isPrefixOf s then some (.real (.infinite minus), s.drop 3)
  else if ("nan" : Text).isPrefixOf s then some (.real .nan, s.drop 3)
  else none

def field? (count low high : Nat) (s : Text) : Option (Nat × Text) :=
  let digits := s.take count
  let value := Text.valueIn 10 digits
  if digits.length = count ∧ digits.all Text.isAsciiDigit ∧ low ≤ value ∧ value ≤ high then
    some (value, s.drop count)
  else none

def mark? (c : Char) : Text → Option Text
  | d :: s => if c = d then some s else none
  | [] => none

def isLeapYear (year : Nat) : Bool := year % 4 == 0 && (year % 100 != 0 || year % 400 == 0)

def daysIn (year month : Nat) : Nat :=
  if month = 2 then if isLeapYear year then 29 else 28
  else if month = 4 ∨ month = 6 ∨ month = 9 ∨ month = 11 then 30
  else 31

def date? (s : Text) : Option Text := do
  let (year, s) ← field? 4 0 9999 s
  let s ← mark? '-' s
  let (month, s) ← field? 2 1 12 s
  let s ← mark? '-' s
  let (_, s) ← field? 2 1 (daysIn year month) s
  some s

def time? (s : Text) : Option Text := do
  let (_, s) ← field? 2 0 23 s
  let s ← mark? ':' s
  let (_, s) ← field? 2 0 59 s
  let s ← mark? ':' s
  let (_, s) ← field? 2 0 60 s
  match s with
  | '.' :: s =>
    if s.head?.any Text.isAsciiDigit then some (s.dropWhile Text.isAsciiDigit) else none
  | s => some s

def offset? : Text → Option Text
  | c :: s =>
    if c = 'Z' ∨ c = 'z' then some s
    else if c = '+' ∨ c = '-' then do
      let (_, s) ← field? 2 0 23 s
      let s ← mark? ':' s
      let (_, s) ← field? 2 0 59 s
      some s
    else some (c :: s)
  | [] => some []

def isTimeMark (c : Char) : Bool := c == 'T' || c == 't' || c == ' '

def momentEnd? (s : Text) : Option Text :=
  match date? s with
  | some (c :: rest) =>
    if isTimeMark c then
      match time? rest with
      | some afterTime => offset? afterTime
      | none => some (c :: rest)
    else some (c :: rest)
  | some [] => some []
  | none => time? s

def moment? (s : Text) : Option (Toml × Text) :=
  (momentEnd? s).map fun rest => (.moment (s.take (s.length - rest.length)), rest)

def number? (s : Text) : Option (Toml × Text) :=
  (moment? s)
    |>.or (decimalReal? s)
    |>.or (specialReal? s)
    |>.or (integer? s)

end SqlReview.Toml
