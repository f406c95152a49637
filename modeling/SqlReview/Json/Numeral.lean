import SqlReview.Json.Value
import SqlReview.Text.CharClass

/-!
Reading numerals. Digits are gathered in 64 bits for as long as they fit, later ones only count for
the magnitude, and a number with a fraction or an exponent is the gathered one multiplied or
divided by a power of ten. That is not always the nearest number, but it is always the same one.
-/
namespace SqlReview.Numeral

/-- Appends digits to a number while 64 bits hold it; the digits that no longer fit are left. -/
def gather : (value : Nat) → Text → Nat × Text
  | value, [] => (value, [])
  | value, c :: digits =>
    let next := value * 10 + Text.digitValue c
    if maxNatural < next then (value, c :: digits) else gather next digits

/-- Multiplies or divides by a power of ten in steps of at most 308; too large a result is none. -/
def scaled? (x : Binary64) (exponent : Int) : Option Binary64 :=
  if exponent.natAbs ≤ 308 then do
    let power ← Binary64.powerOfTen? exponent.natAbs
    if 0 ≤ exponent then x.mul? power else x.div? power
  else if x.isZero then some x
  else if 0 ≤ exponent then none
  else do
    let power ← Binary64.powerOfTen? 308
    let quotient ← x.div? power
    scaled? quotient (exponent + 308)
termination_by exponent.natAbs

def fraction? : Text → Option (Text × Text)
  | '.' :: s =>
    let digits := s.takeWhile Text.isAsciiDigit
    if digits.isEmpty then none else some (digits, s.dropWhile Text.isAsciiDigit)
  | s => some ([], s)

def splitSign : Text → Bool × Text
  | '+' :: s => (false, s)
  | '-' :: s => (true, s)
  | s => (false, s)

def exponent? : Text → Option (Option Int × Text)
  | [] => some (none, [])
  | c :: s =>
    if c = 'e' ∨ c = 'E' then
      let (minus, s) := splitSign s
      let digits := s.takeWhile Text.isAsciiDigit
      let value : Int := Text.valueIn 10 digits
      if digits.isEmpty then none
      else some (some (if minus then -value else value), s.dropWhile Text.isAsciiDigit)
    else some (none, c :: s)

/-- At least one digit, and nothing after a leading zero. -/
def whole? (s : Text) : Option (Text × Text) :=
  let digits := s.takeWhile Text.isAsciiDigit
  if digits.isEmpty || (digits.head? = some '0' && digits.length ≠ 1) then none
  else some (digits, s.dropWhile Text.isAsciiDigit)

def ofParts? (minus : Bool) (whole fraction : Text) (exponent : Option Int) : Option Numeral :=
  let (value, left) := gather 0 whole
  if left.isEmpty && fraction.isEmpty && exponent.isNone &&
      !(minus && (value = 0 || maxInteger + 1 < value)) then
    some (if minus then .negative value else .natural value)
  else
    let (value, ignored) := gather value fraction
    let shift : Int := left.length - (fraction.length - ignored.length : Nat) + exponent.getD 0
    do
      let start ← Binary64.ofNat? value
      let x ← scaled? start shift
      some (.real (if minus then x.negate else x))

def read? (s : Text) : Option (Numeral × Text) :=
  let (minus, s) := if s.head? = some '-' then (true, s.tail) else (false, s)
  (whole? s).bind fun (whole, s) =>
    (fraction? s).bind fun (fraction, s) =>
      (exponent? s).bind fun (exponent, s) =>
        (ofParts? minus whole fraction exponent).map fun n => (n, s)

theorem fraction?_length {s digits rest : Text} (h : fraction? s = some (digits, rest)) :
    rest.length ≤ s.length := by
  unfold fraction? at h
  split at h
  · simp only at h
    split at h
    · contradiction
    · cases h
      exact Nat.le_succ_of_le (List.dropWhile_suffix _).length_le
  · cases h; exact Nat.le_refl _

theorem splitSign_length (s : Text) : (splitSign s).2.length ≤ s.length := by
  unfold splitSign
  split <;> simp

theorem exponent?_length {s rest : Text} {e : Option Int} (h : exponent? s = some (e, rest)) :
    rest.length ≤ s.length := by
  cases s with
  | nil => cases h; exact Nat.le_refl _
  | cons c s =>
    simp only [exponent?] at h
    split at h
    · split at h
      · contradiction
      · cases h
        have := splitSign_length s
        have := (List.dropWhile_suffix Text.isAsciiDigit (l := (splitSign s).2)).length_le
        simp only [List.length_cons]
        omega
    · cases h; exact Nat.le_refl _

theorem whole?_length {s digits rest : Text} (h : whole? s = some (digits, rest)) :
    rest.length < s.length := by
  simp only [whole?] at h
  split at h
  · contradiction
  · next e =>
    cases h
    have parts := congrArg List.length
      (List.takeWhile_append_dropWhile (p := Text.isAsciiDigit) (l := s))
    rw [List.length_append] at parts
    have : (s.takeWhile Text.isAsciiDigit).length ≠ 0 := by
      intro z
      simp [List.length_eq_zero_iff.1 z] at e
    omega

theorem read?_length {s rest : Text} {n : Numeral} (h : read? s = some (n, rest)) :
    rest.length < s.length := by
  have start : (if s.head? = some '-' then (true, s.tail) else (false, s)).2.length ≤ s.length := by
    split <;> simp
  simp only [read?, Option.bind_eq_some_iff, Option.map_eq_some_iff] at h
  obtain ⟨⟨_, r₁⟩, h₁, ⟨_, r₂⟩, h₂, ⟨_, r₃⟩, h₃, _, _, e⟩ := h
  cases e
  have := whole?_length h₁
  have := fraction?_length h₂
  have := exponent?_length h₃
  dsimp only at *
  omega

end SqlReview.Numeral
