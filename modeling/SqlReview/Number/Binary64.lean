/-!
Binary floating point numbers of 53 significant bits, kept as exact integers so that every step of
their arithmetic is a fact about natural numbers. Results are rounded to the nearest number, a half
to the even neighbour.
-/
namespace SqlReview

/-- The number `± mantissa · 2 ^ exponent`. The mantissa is below `2 ^ 53`, and at least `2 ^ 52`
unless the exponent is the least one, -1074. -/
structure Binary64 where
  negative : Bool
  mantissa : Nat
  exponent : Int
deriving Repr, DecidableEq

namespace Binary64

def zero : Binary64 := ⟨false, 0, -1074⟩

def leastFull : Nat := 4503599627370496

def beyondFull : Nat := 2 * leastFull

def isZero (x : Binary64) : Bool := x.mantissa == 0

/-- The quotient rounded to the nearest natural number, a half to the even one. -/
def divNearest (num den : Nat) : Nat :=
  let quotient := num / den
  let twice := 2 * (num % den)
  if twice < den then quotient
  else if den < twice then quotient + 1
  else quotient + quotient % 2

def scale (num den : Nat) (shift : Int) : Nat × Nat :=
  if 0 ≤ shift then (num * Nat.pow 2 shift.toNat, den) else (num, den * Nat.pow 2 (-shift).toNat)

def nearest? (num den : Nat) (shift : Int) : Option Binary64 :=
  if num = 0 then some zero
  else
    let (n, d) := scale num den shift
    let guess : Int := (n.log2 : Int) - d.log2 - 53
    let (gn, gd) := scale n d (-guess)
    let exponent := max (-1074) (if beyondFull ≤ gn / gd then guess + 1 else guess)
    let (rn, rd) := scale n d (-exponent)
    let mantissa := divNearest rn rd
    let (mantissa, exponent) :=
      if mantissa = beyondFull then (leastFull, exponent + 1) else (mantissa, exponent)
    if 971 < exponent then none else some ⟨false, mantissa, exponent⟩

def ofNat? (n : Nat) : Option Binary64 := nearest? n 1 0

def mul? (x y : Binary64) : Option Binary64 :=
  nearest? (x.mantissa * y.mantissa) 1 (x.exponent + y.exponent)

def div? (x y : Binary64) : Option Binary64 :=
  nearest? x.mantissa y.mantissa (x.exponent - y.exponent)

def powerOfTen? (n : Nat) : Option Binary64 := ofNat? (Nat.pow 10 n)

def negate (x : Binary64) : Binary64 := { x with negative := !x.negative }

/-- The natural number nearest to the absolute value, a half upwards. -/
def roundAbs (x : Binary64) : Nat :=
  let (n, d) := scale x.mantissa 1 x.exponent
  (2 * n + d) / (2 * d)

end Binary64

end SqlReview
