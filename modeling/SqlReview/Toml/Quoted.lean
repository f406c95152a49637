import SqlReview.Text.CharClass

/-!
TOML strings. Each reader starts after the opening quotes and gives the string and the text after
the closing ones.
-/
namespace SqlReview.Toml

def isPrintable (c : Char) : Bool := c == '\t' || (32 ≤ c.toNat && c.toNat != 127)

def isSpace (c : Char) : Bool := c == ' ' || c == '\t'

def afterBreak? : Text → Option Text
  | '\n' :: s => some s
  | '\r' :: '\n' :: s => some s
  | _ => none

def codePoint? (width : Nat) (s : Text) : Option (Char × Text) :=
  let digits := s.take width
  let code := Text.valueIn 16 digits
  if digits.length = width ∧ digits.all Text.isHexDigit ∧ code.isValidChar then
    some (Char.ofNat code, s.drop width)
  else none

def escape? : Text → Option (Char × Text)
  | [] => none
  | c :: s =>
    match c with
    | 'b' => some ('\x08', s)
    | 'f' => some ('\x0c', s)
    | 'n' => some ('\n', s)
    | 'r' => some ('\r', s)
    | 't' => some ('\t', s)
    | '"' | '\\' => some (c, s)
    | 'u' => codePoint? 4 s
    | 'U' => codePoint? 8 s
    | _ => none

/-- The text after a line break that a backslash hides, with all blanks and line breaks that follow
it. -/
def afterHiddenBreak? (s : Text) : Option Text :=
  (afterBreak? (s.dropWhile isSpace)).map fun rest =>
    rest.dropWhile fun c => isSpace c || c == '\n' || c == '\r'

/-- How many of `quote` stand next, at most five: up to two of them can belong to a string that the
other three close. -/
def closingQuotes (quote : Char) (s : Text) : Nat := ((s.take 5).takeWhile (· == quote)).length

structure QuoteStyle where
  quote : Char
  escapes : Bool
  multiline : Bool

/-- Reads the body of a string. The fuel is spent by every character. -/
def quotedBody? (style : QuoteStyle) : (fuel : Nat) → Text → Option (Text × Text)
  | 0, _ | _, [] => none
  | fuel + 1, c :: s =>
    let more (body : Text) (rest : Text) : Option (Text × Text) :=
      (quotedBody? style fuel rest).map fun (tail, after) => (body ++ tail, after)
    if c = style.quote then
      if style.multiline then
        let n := closingQuotes style.quote (c :: s)
        if 3 ≤ n then some (List.replicate (n - 3) c, (c :: s).drop n) else more [c] s
      else some ([], s)
    else if style.escapes && c == '\\' then
      match style.multiline, afterHiddenBreak? s with
      | true, some rest => more [] rest
      | _, _ => (escape? s).bind fun (d, rest) => more [d] rest
    else if isPrintable c then more [c] s
    else if style.multiline then (afterBreak? (c :: s)).bind fun rest => more ['\n'] rest
    else none

def quoted? (style : QuoteStyle) (s : Text) : Option (Text × Text) :=
  quotedBody? style s.length s

def simpleString? : Text → Option (Text × Text)
  | '"' :: s => quoted? ⟨'"', true, false⟩ s
  | '\'' :: s => quoted? ⟨'\'', false, false⟩ s
  | _ => none

/-- A line break right after three opening quotes does not count. -/
def afterOpening (s : Text) : Text := (afterBreak? s).getD s

def string? : Text → Option (Text × Text)
  | '"' :: '"' :: '"' :: s => quoted? ⟨'"', true, true⟩ (afterOpening s)
  | '\'' :: '\'' :: '\'' :: s => quoted? ⟨'\'', false, true⟩ (afterOpening s)
  | s => simpleString? s

end SqlReview.Toml
