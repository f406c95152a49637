import SqlReview.Number.Binary64
import SqlReview.Text.Basic

/-!
The shortest decimal text of a binary number: of the decimals that read back as the number, one
with the fewest digits, and of those the nearest.
-/
namespace SqlReview.Binary64

structure Decimal where
  digits : Nat
  exponent : Int
deriving Repr, DecidableEq

def Decimal.fraction (d : Decimal) : Nat × Nat :=
  if 0 ≤ d.exponent then (d.digits * Nat.pow 10 d.exponent.toNat, 1)
  else (d.digits, Nat.pow 10 (-d.exponent).toNat)

/-- Four times the number, and the ends of what rounds to it, over one denominator. The gap below a
power of two is half as wide as the one above. -/
structure Neighbourhood where
  low : Nat
  mid : Nat
  high : Nat
  den : Nat
  closed : Bool

def neighbourhood (x : Binary64) : Neighbourhood :=
  let (unit, den) := scale 1 4 x.exponent
  let below := if x.mantissa = leastFull ∧ -1074 < x.exponent then 1 else 2
  ⟨(4 * x.mantissa - below) * unit, 4 * x.mantissa * unit, (4 * x.mantissa + 2) * unit, den,
    x.mantissa % 2 == 0⟩

def Neighbourhood.holds (h : Neighbourhood) (d : Decimal) : Bool :=
  let (n, m) := d.fraction
  if h.closed then h.low * m ≤ n * h.den && n * h.den ≤ h.high * m
  else h.low * m < n * h.den && n * h.den < h.high * m

def Neighbourhood.distance (h : Neighbourhood) (d : Decimal) : Nat :=
  let (n, m) := d.fraction
  max (n * h.den) (h.mid * m) - min (n * h.den) (h.mid * m)

/-- The number of decimal digits before the point, or less the number of zeros after it. -/
def magnitude (num den : Nat) : Int :=
  if den ≤ num then (Nat.toDigits 10 (num / den)).length
  else
    let n := (Nat.toDigits 10 (den / num)).length
    if den ≤ num * Nat.pow 10 (n - 1) then -(n - 1 : Int) + 1 else -(n : Int) + 1

def candidates (h : Neighbourhood) (count : Nat) : List Decimal :=
  let exponent := magnitude h.mid h.den - count
  let floor := if 0 ≤ exponent then h.mid / (h.den * Nat.pow 10 exponent.toNat)
    else h.mid * Nat.pow 10 (-exponent).toNat / h.den
  [⟨floor, exponent⟩, ⟨floor + 1, exponent⟩].filter h.holds

def pick (h : Neighbourhood) : List Decimal → Option Decimal
  | [] => none
  | [d] => some d
  | d :: e :: _ =>
    if h.distance d < h.distance e then some d
    else if h.distance e < h.distance d then some e
    else if d.digits % 2 = 0 then some d else some e

/-- Seventeen digits always suffice. -/
def shortest (x : Binary64) : Decimal :=
  let h := x.neighbourhood
  (((List.range 17).findSome? fun n => pick h (candidates h (n + 1))).getD ⟨0, 0⟩)

def Decimal.normalize (fuel : Nat) (d : Decimal) : Decimal :=
  match fuel with
  | 0 => d
  | fuel + 1 =>
    if d.digits % 10 = 0 ∧ d.digits ≠ 0 then
      Decimal.normalize fuel ⟨d.digits / 10, d.exponent + 1⟩
    else d

def intText (n : Int) : Text := if n < 0 then '-' :: Text.ofNat n.natAbs else Text.ofNat n.natAbs

/-- Positional from five zeros after the point up to sixteen digits before it, else with an
exponent; there is always a fraction digit or an exponent. -/
def Decimal.text (d : Decimal) : Text :=
  let digits := Text.ofNat d.digits
  let point := d.exponent + digits.length
  if 0 ≤ d.exponent ∧ point ≤ 16 then
    digits ++ List.replicate d.exponent.toNat '0' ++ ['.', '0']
  else if 0 < point ∧ point ≤ 16 then
    digits.take point.toNat ++ ['.'] ++ digits.drop point.toNat
  else if -5 < point ∧ point ≤ 0 then
    ['0', '.'] ++ List.replicate (-point).toNat '0' ++ digits
  else
    match digits with
    | [only] => [only, 'e'] ++ intText (point - 1)
    | first :: others => [first, '.'] ++ others ++ ['e'] ++ intText (point - 1)
    | [] => []

def text (x : Binary64) : Text :=
  let sign : Text := if x.negative then ['-'] else []
  if x.isZero then sign ++ "0.0" else sign ++ (x.shortest.normalize 20).text

end SqlReview.Binary64
