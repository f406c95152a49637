import SqlReview.Sql.Quoted

/-!
Cutting a query into lexemes. `scan` reads the one lexeme that a character begins and always
leaves less text than it was given, so `lexemes` ends with a lexeme for every character or with
the first fault.
-/
namespace SqlReview.Sql

abbrev Scanned := Except Fault (Lexeme × Text)

def isNameTail (c : Char) : Bool :=
  Text.isAlphabetic c || Text.isAsciiDigit c || c == '@' || c == '$' || c == '#' || c == '_'

def scanWord (start s : Text) : Scanned :=
  .ok (.word (start ++ s.takeWhile isNameTail), s.dropWhile isNameTail)

/-- A string after its opening quote; `at_` is the text from the place a fault is reported at. -/
def scanString (form : StringForm) (quote : Char) (escapes : Bool) (at_ s : Text) : Scanned :=
  match quotedBody quote escapes s with
  | some (body, rest) => .ok (.string form body, rest)
  | none => .error ⟨.unterminatedString, at_⟩

/-- A raw string after its letter: two quotes are the empty string, three open a triple one. -/
def scanRaw (quote : Char) : Text → Scanned
  | a :: b :: c :: s =>
    if a = quote ∧ b = quote ∧ c = quote then
      match tripledBody quote s with
      | some (body, rest) => .ok (.string (.raw quote true) body, rest)
      | none => .error ⟨.unterminatedString, s⟩
    else if b = quote then .ok (.string (.raw quote false) [], c :: s)
    else scanString (.raw quote false) quote false (b :: c :: s) (b :: c :: s)
  | [_, b] =>
    if b = quote then .ok (.string (.raw quote false) [], [])
    else .error ⟨.unterminatedString, [b]⟩
  | s => .error ⟨.unterminatedString, s.drop 1⟩

def takeDot : Text → Text × Text
  | '.' :: s => (['.'], s)
  | s => ([], s)

def takeSign : Text → Text × Text
  | '+' :: s => (['+'], s)
  | '-' :: s => (['-'], s)
  | s => ([], s)

/-- An exponent counts only if a digit follows the mark and its sign. -/
def takeExponent : Text → Text × Text
  | [] => ([], [])
  | c :: s =>
    if c = 'e' ∨ c = 'E' then
      let (sign, digits) := takeSign s
      if (digits.head?.any Text.isAsciiDigit) then
        (c :: sign ++ digits.takeWhile Text.isAsciiDigit, digits.dropWhile Text.isAsciiDigit)
      else ([], c :: s)
    else ([], c :: s)

def takeLong : Text → Text × Text
  | 'L' :: s => (['L'], s)
  | s => ([], s)

/-- A numeral that begins with a digit or a dot; a dot alone is a period. -/
def scanNumber (s : Text) : Scanned :=
  let whole := s.takeWhile Text.isAsciiDigit
  let afterWhole := s.dropWhile Text.isAsciiDigit
  if whole = ['0'] ∧ afterWhole.head? = some 'x' then
    .ok (.string .hex (afterWhole.tail.takeWhile Text.isHexDigit),
      afterWhole.tail.dropWhile Text.isHexDigit)
  else
    let (dot, afterDot) := takeDot afterWhole
    let fraction := afterDot.takeWhile Text.isAsciiDigit
    let afterFraction := afterDot.dropWhile Text.isAsciiDigit
    if whole = [] ∧ fraction = [] then .ok (.symbol ['.'], afterFraction)
    else
      let (exponent, afterExponent) := takeExponent afterFraction
      let (long, rest) := takeLong afterExponent
      .ok (.number (whole ++ dot ++ fraction ++ exponent ++ long), rest)

def scanDollar (s : Text) : Scanned :=
  if s.head? = some '$' then
    match dollarBody false s.tail with
    | some (body, rest) => .ok (.string (.dollar []) body, rest)
    | none => .error ⟨.unterminatedDollarString, []⟩
  else
    let isTag := fun c => Text.isAlphanumeric c || c == '_'
    let tag := s.takeWhile isTag
    let afterTag := s.dropWhile isTag
    if afterTag.head? = some '$' then
      match taggedBody tag none afterTag.tail with
      | some (body, rest) =>
        .ok (.string (.dollar tag) (body.take (body.length - (tag.length + 1))), rest)
      | none => .error ⟨.unterminatedTaggedString, []⟩
    else .ok (.placeholder ('$' :: tag), afterTag)

def longSigns : List Text :=
  (["->>", "->", "||/", "||", "|/", "//", "==", "=>", "!~~*", "!~~", "!~*", "!~", "!=", "!!",
    "<=>", "<=", "<>", "<<", "<@", ">=", ">>", "::", ":=", "&&", "^@", "~~*", "~~", "~*", "#>>",
    "#>", "#-", "@>", "@?"] : List String).map String.toList

/-- The longest sign that the text begins with; any character is a sign by itself. Of the two
ways to write "not equal" only one is written back. -/
def scanSign (c : Char) (s : Text) : Scanned :=
  match longSigns.find? fun sign => sign.isPrefixOf (c :: s) with
  | some sign =>
    .ok (.symbol (if sign = ['!', '='] then ['<', '>'] else sign), s.drop (sign.length - 1))
  | none => .ok (.symbol [c], s)

/-- After a number sign that begins no longer sign: it stands alone before a space and at the end,
and elsewhere takes any next character into a word. -/
def scanHash : Text → Scanned
  | [] => .ok (.symbol ['#'], [])
  | c :: s => if c = ' ' then .ok (.symbol ['#'], c :: s) else scanWord ['#', c] s

/-- After an at sign that begins no longer sign; two of them behave as one. -/
def scanAt : Text → Scanned
  | [] => .ok (.symbol ['@'], [])
  | '@' :: [] => .ok (.symbol ['@', '@'], [])
  | '@' :: c :: s =>
    if c = ' ' then .ok (.symbol ['@', '@'], c :: s) else scanWord ['@', '@', c] s
  | c :: s => if c = ' ' then .ok (.symbol ['@'], c :: s) else scanWord ['@', c] s

def scanLettered (c : Char) (s : Text) : Scanned :=
  let quoted := s.head? = some '\''
  if c = 'b' ∨ c = 'B' then
    if quoted then scanString (.bytes '\'') '\'' false s s.tail
    else if s.head? = some '"' then scanString (.bytes '"') '"' false s s.tail
    else scanWord [c] s
  else if c = 'r' ∨ c = 'R' then
    if quoted then scanRaw '\'' s
    else if s.head? = some '"' then scanRaw '"' s
    else scanWord [c] s
  else if c = 'n' ∨ c = 'N' then
    if quoted then scanString .national '\'' true s s.tail else scanWord [c] s
  else if c = 'x' ∨ c = 'X' then
    if quoted then scanString .hex '\'' true s s.tail else scanWord [c] s
  else if c = 'e' ∨ c = 'E' then
    if quoted then
      match escapedBody s.tail with
      | some (body, rest) => .ok (.string .escaped body, rest)
      | none => .error ⟨.unterminatedEscapedString, c :: s⟩
    else scanWord [c] s
  else if (c = 'u' ∨ c = 'U') ∧ ['&', '\''].isPrefixOf s then
    match unicodeBody (s.drop 2) with
    | .ok (body, rest) => .ok (.string .unicode body, rest)
    | .error fault => .error fault
  else scanWord [c] s

def scanComment? (c : Char) (s : Text) : Option Scanned :=
  if c = '-' ∧ s.head? = some '-' then
    some (.ok (.lineComment (s.tail.takeWhile (· != '\n') ++ (s.tail.dropWhile (· != '\n')).take 1),
      (s.tail.dropWhile (· != '\n')).tail))
  else if c = '/' ∧ s.head? = some '*' then
    some (match commentBody 1 ' ' s.tail with
      | some (body, rest) => .ok (.blockComment body.dropLast, rest)
      | none => .error ⟨.unterminatedComment, []⟩)
  else none

/-- What begins with neither a blank, a quote nor a digit, nor a letter of the ASCII block. -/
def scanOther (c : Char) (s : Text) : Scanned :=
  if c = '#' ∧ s.head? ≠ some '-' ∧ s.head? ≠ some '>' then scanHash s
  else if c = '@' ∧ s.head? ≠ some '>' ∧ s.head? ≠ some '?' then scanAt s
  else if c = '?' then
    .ok (.placeholder ('?' :: s.takeWhile Text.isNumeric), s.dropWhile Text.isNumeric)
  else if c = '$' then scanDollar s
  else if Text.isAlphabetic c || c == '_' then scanWord [c] s
  else if Text.isBlank c then .ok (.blank ' ', s)
  else scanSign c s

def scanQuotedWord (quote : Char) (s : Text) : Scanned :=
  match quotedBody quote false s with
  | some (name, rest) => .ok (.quotedWord quote name, rest)
  | none => .error ⟨.unclosedQuote quote, quote :: s⟩

def scan (c : Char) (s : Text) : Scanned :=
  if c = ' ' ∨ c = '\t' ∨ c = '\n' then .ok (.blank c, s)
  else if c = '\r' then .ok (.blank '\n', if s.head? = some '\n' then s.tail else s)
  else if Text.isAsciiLetter c then scanLettered c s
  else if c = '\'' then scanString .plain '\'' false (c :: s) s
  else if c = '"' ∨ c = '\x60' then scanQuotedWord c s
  else if Text.isAsciiDigit c ∨ c = '.' then scanNumber (c :: s)
  else (scanComment? c s).getD (scanOther c s)

section Shorter

variable {s rest : Text} {l : Lexeme}

theorem scanWord_length {start : Text} (h : scanWord start s = .ok (l, rest)) :
    rest.length ≤ s.length := by
  cases h
  exact (List.dropWhile_suffix _).length_le

theorem scanString_length {form : StringForm} {quote : Char} {escapes : Bool} {at_ : Text}
    (h : scanString form quote escapes at_ s = .ok (l, rest)) : rest.length < s.length := by
  simp only [scanString] at h
  split at h
  · next e => cases h; exact quotedBody_length e
  · contradiction

theorem scanRaw_length {quote : Char} (h : scanRaw quote s = .ok (l, rest)) :
    rest.length < s.length := by
  unfold scanRaw at h
  repeat' split at h
  · next e => cases h; have := tripledBody_length e; simp only [List.length_cons]; omega
  · contradiction
  · cases h; simp only [List.length_cons]; omega
  · exact Nat.lt_succ_of_lt (scanString_length h)
  · cases h; simp
  · contradiction
  · contradiction

theorem takeDot_length (s : Text) : (takeDot s).2.length ≤ s.length := by
  unfold takeDot
  split <;> simp

theorem takeSign_length (s : Text) : (takeSign s).2.length ≤ s.length := by
  unfold takeSign
  split <;> simp

theorem takeExponent_length (s : Text) : (takeExponent s).2.length ≤ s.length := by
  cases s with
  | nil => simp [takeExponent]
  | cons c s =>
    simp only [takeExponent]
    split
    · split
      · have := takeSign_length s
        have := (List.dropWhile_suffix (l := (takeSign s).2) Text.isAsciiDigit).length_le
        simp only [List.length_cons]
        omega
      · exact Nat.le_refl _
    · exact Nat.le_refl _

theorem takeLong_length (s : Text) : (takeLong s).2.length ≤ s.length := by
  unfold takeLong
  split <;> simp

theorem scanNumber_length {c : Char} (start : Text.isAsciiDigit c ∨ c = '.')
    (h : scanNumber (c :: s) = .ok (l, rest)) : rest.length ≤ s.length := by
  have first : (takeDot ((c :: s).dropWhile Text.isAsciiDigit)).2.length ≤ s.length := by
    by_cases digit : Text.isAsciiDigit c = true
    · rw [List.dropWhile_cons_of_pos digit]
      exact Nat.le_trans (takeDot_length _) ((List.dropWhile_suffix _).length_le)
    · rw [List.dropWhile_cons_of_neg digit]
      obtain rfl := start.resolve_left digit
      exact Nat.le_refl _
  simp only [scanNumber] at h
  split at h
  · next hex =>
    have digit : Text.isAsciiDigit c = true := by
      apply Decidable.byContradiction
      intro digit
      simp [List.takeWhile_cons_of_neg digit] at hex
    rw [List.dropWhile_cons_of_pos digit] at h
    cases h
    refine Nat.le_trans ((List.dropWhile_suffix _).length_le) ?_
    rw [List.length_tail]
    exact Nat.le_trans (Nat.sub_le _ _) ((List.dropWhile_suffix _).length_le)
  · have fraction := (List.dropWhile_suffix
      (l := (takeDot ((c :: s).dropWhile Text.isAsciiDigit)).2) Text.isAsciiDigit).length_le
    split at h
    · cases h
      omega
    · cases h
      refine Nat.le_trans (takeLong_length _) (Nat.le_trans (takeExponent_length _) ?_)
      omega

theorem scanDollar_length (h : scanDollar s = .ok (l, rest)) : rest.length ≤ s.length := by
  simp only [scanDollar] at h
  repeat' split at h
  · next e => cases h; have := dollarBody_length e; simp only [List.length_tail] at this; omega
  · contradiction
  · next e =>
    cases h
    have := taggedBody_length e
    have := (List.dropWhile_suffix (l := s) fun c => Text.isAlphanumeric c || c == '_').length_le
    simp only [List.length_tail] at *
    omega
  · contradiction
  · cases h
    exact (List.dropWhile_suffix _).length_le

theorem scanSign_length {c : Char} (h : scanSign c s = .ok (l, rest)) :
    rest.length ≤ s.length := by
  simp only [scanSign] at h
  split at h <;> cases h <;> simp

theorem scanHash_length (h : scanHash s = .ok (l, rest)) : rest.length ≤ s.length := by
  unfold scanHash at h
  split at h
  · cases h; simp
  · split at h
    · cases h; exact Nat.le_refl _
    · exact Nat.le_succ_of_le (scanWord_length h)

theorem scanAt_length (h : scanAt s = .ok (l, rest)) : rest.length ≤ s.length := by
  unfold scanAt at h
  split at h
  · cases h; simp
  · cases h; simp
  · split at h
    · cases h; simp
    · have := scanWord_length h
      simp only [List.length_cons]
      omega
  · split at h
    · cases h; exact Nat.le_refl _
    · exact Nat.le_succ_of_le (scanWord_length h)

theorem scanLettered_length {c : Char} (h : scanLettered c s = .ok (l, rest)) :
    rest.length ≤ s.length := by
  simp only [scanLettered] at h
  repeat' split at h
  all_goals first
    | contradiction
    | exact scanWord_length h
    | exact Nat.le_of_lt (scanRaw_length h)
    | exact Nat.le_trans (Nat.le_of_lt (scanString_length h)) (by simp)
    | (next e => cases h; have := escapedBody_length e; rw [List.length_tail] at this; omega)
    | (next e => cases h; have := unicodeBody_length e; rw [List.length_drop] at this; omega)

theorem scanComment?_length {c : Char} (h : scanComment? c s = some (.ok (l, rest))) :
    rest.length ≤ s.length := by
  simp only [scanComment?] at h
  split at h
  · cases h
    have := (List.dropWhile_suffix (l := s.tail) (· != '\n')).length_le
    simp only [List.length_tail] at *
    omega
  · split at h
    · simp only [Option.some.injEq] at h
      split at h
      · next e => cases h; have := commentBody_length e; rw [List.length_tail] at this; omega
      · contradiction
    · contradiction

theorem scanOther_length {c : Char} (h : scanOther c s = .ok (l, rest)) :
    rest.length ≤ s.length := by
  simp only [scanOther] at h
  repeat' split at h
  · exact scanHash_length h
  · exact scanAt_length h
  · cases h; exact (List.dropWhile_suffix _).length_le
  · exact scanDollar_length h
  · exact scanWord_length h
  · cases h; exact Nat.le_refl _
  · exact scanSign_length h

theorem scanQuotedWord_length {quote : Char} (h : scanQuotedWord quote s = .ok (l, rest)) :
    rest.length < s.length := by
  simp only [scanQuotedWord] at h
  split at h
  · next e => cases h; exact quotedBody_length e
  · contradiction

/-- A lexeme takes at least the character that begins it. -/
theorem scan_length {c : Char} (h : scan c s = .ok (l, rest)) : rest.length ≤ s.length := by
  simp only [scan] at h
  split at h
  · cases h; exact Nat.le_refl _
  split at h
  · cases h; split <;> simp
  split at h
  · exact scanLettered_length h
  split at h
  · exact Nat.le_of_lt (scanString_length h)
  split at h
  · exact Nat.le_of_lt (scanQuotedWord_length h)
  split at h
  · next start => exact scanNumber_length start h
  · cases e : scanComment? c s with
    | none => rw [e] at h; exact scanOther_length h
    | some found => rw [e] at h; cases h; exact scanComment?_length e

end Shorter

def lexemes (s : Text) : Except Fault (List Lexeme) :=
  match s with
  | [] => .ok []
  | c :: r =>
    match h : scan c r with
    | .error fault => .error fault
    | .ok (l, rest) =>
      have := scan_length h
      (lexemes rest).map (l :: ·)
termination_by s.length
decreasing_by simp only [List.length_cons]; omega

end SqlReview.Sql
