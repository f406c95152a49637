/-!
Text is the list of its characters, read from the front. A literal string stands for its text
wherever a text is expected.
-/
namespace SqlReview

abbrev Text := List Char

instance : Coe String Text := ⟨String.toList⟩

namespace Text

/-- The 25 characters that separate words in writing. -/
def isBlank (c : Char) : Bool :=
  let n := c.toNat
  if n < 128 then n == 32 || (9 ≤ n && n ≤ 13)
  else
    n == 133 || n == 160 || n == 5760 || (8192 ≤ n && n ≤ 8202) || n == 8232 || n == 8233 ||
      n == 8239 || n == 8287 || n == 12288

def trimLeft (s : Text) : Text := s.dropWhile isBlank

def trimRight (s : Text) : Text := (s.reverse.dropWhile isBlank).reverse

def trim (s : Text) : Text := trimRight (trimLeft s)

/-- The text cut at every character that `isMark` holds of: one more piece than there are marks. -/
def cut (isMark : Char → Bool) : Text → List Text
  | [] => [[]]
  | c :: r =>
    match cut isMark r with
    | [] => [[c]]
    | first :: others => if isMark c then [] :: first :: others else (c :: first) :: others

def pieces (mark : Char) (s : Text) : List Text := cut (· == mark) s

/-- The maximal runs of characters that are not blank. -/
def words (s : Text) : List Text := (cut isBlank s).filter fun w => !w.isEmpty

/-- A carriage return right before a line feed belongs to the line ending. -/
def dropReturn (line : Text) : Text :=
  if line.getLast? = some '\r' then line.dropLast else line

/-- Each line feed ends a line; what follows the last one is a line only if it is not empty. -/
def lines (s : Text) : List Text :=
  let cutLines := pieces '\n' s
  cutLines.dropLast.map dropReturn ++ (cutLines.getLast?.toList).filter fun w => !w.isEmpty

def lower (s : Text) : Text := s.map Char.toLower

def upper (s : Text) : Text := s.map Char.toUpper

def eqIgnoreCase (s t : Text) : Bool := lower s == lower t

def contains (part : Text) : Text → Bool
  | [] => part.isEmpty
  | c :: r => part.isPrefixOf (c :: r) || contains part r

def ofNat (n : Nat) : Text := (Nat.repr n).toList

theorem trim_length_le (s : Text) : (trim s).length ≤ s.length := by
  have left := (List.dropWhile_suffix isBlank (l := s)).length_le
  have right := (List.dropWhile_suffix isBlank (l := (trimLeft s).reverse)).length_le
  simp only [trim, trimRight, trimLeft, List.length_reverse] at *
  omega

theorem cut_ne_nil (isMark : Char → Bool) (s : Text) : cut isMark s ≠ [] := by
  cases s with
  | nil => simp [cut]
  | cons c r =>
    simp only [cut]
    split
    · simp
    · split <;> simp

end Text

end SqlReview
