import SqlReview.Text.Basic

/-!
Text in capitals, as far as the capitals are ASCII letters: besides the small ASCII letters these
are the few other characters whose capital form holds one. Every other character stays as it is,
which no search for a text in ASCII capitals can tell from its true capital.
-/
namespace SqlReview.Text

/-- The capital forms that hold an ASCII letter, by code point. -/
def foreignCapitals : List (Nat × List Char) :=
  [(0x131, ['I']), (0x17F, ['S']), (0xDF, ['S', 'S']), (0x149, ['\u02BC', 'N']),
    (0x1F0, ['J', '\u030C']), (0x1E96, ['H', '\u0331']), (0x1E97, ['T', '\u0308']),
    (0x1E98, ['W', '\u030A']), (0x1E99, ['Y', '\u030A']), (0x1E9A, ['A', '\u02BE']),
    (0xFB00, ['F', 'F']), (0xFB01, ['F', 'I']), (0xFB02, ['F', 'L']), (0xFB03, ['F', 'F', 'I']),
    (0xFB04, ['F', 'F', 'L']), (0xFB05, ['S', 'T']), (0xFB06, ['S', 'T'])]

def capitalForm (c : Char) : Text :=
  if c.toNat < 128 then [c.toUpper]
  else ((foreignCapitals.find? fun entry => entry.1 = c.toNat).map (·.2)).getD [c]

def capitals (s : Text) : Text := s.flatMap capitalForm

end SqlReview.Text
