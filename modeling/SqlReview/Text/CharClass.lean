import SqlReview.Text.Basic
import SqlReview.Text.Alphabetic
import SqlReview.Text.Numeric
import SqlReview.Text.Mark

/-!
Classes of characters. Each answers for ASCII by arithmetic and for the rest by its table.
-/
namespace SqlReview.Text

def isAsciiDigit (c : Char) : Bool := '0' ≤ c && c ≤ '9'

def isAsciiLetter (c : Char) : Bool := ('a' ≤ c && c ≤ 'z') || ('A' ≤ c && c ≤ 'Z')

def isHexDigit (c : Char) : Bool :=
  isAsciiDigit c || ('a' ≤ c && c ≤ 'f') || ('A' ≤ c && c ≤ 'F')

def isAlphabetic (c : Char) : Bool :=
  if c.toNat < 128 then isAsciiLetter c else alphabeticRanges.holds c.toNat

def isNumeric (c : Char) : Bool :=
  if c.toNat < 128 then isAsciiDigit c else numericRanges.holds c.toNat

def isAlphanumeric (c : Char) : Bool := isAlphabetic c || isNumeric c

/-- A word is made of letters, marks, decimal digits, connectors such as the underscore, and the
two invisible joiners. -/
def isWord (c : Char) : Bool :=
  if c.toNat < 128 then isAsciiLetter c || isAsciiDigit c || c == '_'
  else
    alphabeticRanges.holds c.toNat || markRanges.holds c.toNat || decimalRanges.holds c.toNat ||
      connectorRanges.holds c.toNat || c.toNat == 8204 || c.toNat == 8205

/-- A name in laid-out code also takes numbers that are no decimal digits, but no joiner. -/
def isNamePart (c : Char) : Bool :=
  if c.toNat < 128 then isAsciiLetter c || isAsciiDigit c || c == '_'
  else
    isAlphanumeric c || markRanges.holds c.toNat || connectorRanges.holds c.toNat

def digitValue (c : Char) : Nat :=
  if isAsciiDigit c then c.toNat - 48
  else if 'a' ≤ c && c ≤ 'f' then c.toNat - 87
  else c.toNat - 55

def valueIn (base : Nat) (digits : Text) : Nat :=
  digits.foldl (fun n c => n * base + digitValue c) 0

end SqlReview.Text
