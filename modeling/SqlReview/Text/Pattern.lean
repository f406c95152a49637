import SqlReview.Text.CharClass

/-!
Words and phrases found in a text regardless of letter case. A pattern sees the character before
a place and the text from there on, and says how many characters it covers; its occurrences are
the leftmost ones that do not overlap.
-/
namespace SqlReview

abbrev Pattern := Option Char → Text → Option Nat

structure Occurrence where
  before : Text
  covered : Text
  after : Text
deriving Repr, DecidableEq

namespace Pattern

/-- Whether `c` is a way to write the capital letter `letter`: itself, its small form, and for S
and K also the long s and the Kelvin sign. -/
def writes (letter c : Char) : Bool :=
  c.toUpper == letter || (letter == 'S' && c.toNat == 383) || (letter == 'K' && c.toNat == 8490)

def spells : Text → Text → Bool
  | [], _ => true
  | _ :: _, [] => false
  | letter :: word, c :: s => writes letter c && spells word s

def inWord (c : Option Char) : Bool := c.any Text.isWord

/-- The word where no other word character touches it. -/
def word (w : Text) : Pattern := fun before s =>
  if !inWord before && spells w s && !inWord (s.drop w.length).head? then some w.length else none

def blankCount (s : Text) : Nat := (s.takeWhile Text.isBlank).length

/-- Two words with nothing but blanks between them, touched by no other word character. -/
def phrase (first second : Text) : Pattern := fun before s =>
  let gap := blankCount (s.drop first.length)
  if spells first s && gap != 0 then
    let rest := s.drop (first.length + gap)
    if !inWord before && spells second rest && !inWord (rest.drop second.length).head? then
      some (first.length + gap + second.length)
    else none
  else none

def oneOf (ps : List Pattern) : Pattern := fun before s => ps.findSome? fun p => p before s

/-- The occurrences at and after a place, where `seen` is the text before the place, last
character first, and the next `skip` characters are covered already. -/
def occurrencesFrom (p : Pattern) : Text → Nat → Text → List Occurrence
  | _, _, [] => []
  | seen, skip + 1, c :: s => occurrencesFrom p (c :: seen) skip s
  | seen, 0, c :: s =>
    match p seen.head? (c :: s) with
    | some (n + 1) =>
      ⟨seen.reverse, (c :: s).take (n + 1), (c :: s).drop (n + 1)⟩ ::
        occurrencesFrom p (c :: seen) n s
    | _ => occurrencesFrom p (c :: seen) 0 s

def occurrences (p : Pattern) (s : Text) : List Occurrence := p.occurrencesFrom [] 0 s

def first? (p : Pattern) (s : Text) : Option Occurrence := (p.occurrences s).head?

def occursIn (p : Pattern) (s : Text) : Bool := (p.first? s).isSome

def count (p : Pattern) (s : Text) : Nat := (p.occurrences s).length

def splitFrom (p : Pattern) : Option Char → Text → Nat → Text → List Text
  | _, piece, _, [] => [piece.reverse]
  | _, piece, skip + 1, c :: s => splitFrom p (some c) piece skip s
  | before, piece, 0, c :: s =>
    match p before (c :: s) with
    | some (n + 1) => piece.reverse :: splitFrom p (some c) [] n s
    | _ => splitFrom p (some c) (c :: piece) 0 s

def split (p : Pattern) (s : Text) : List Text := p.splitFrom none [] 0 s

end Pattern

end SqlReview
