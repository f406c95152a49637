import SqlReview.Layout.Piece
import SqlReview.Layout.Vocabulary

/-!
Cutting a query into pieces. Each reader says how many characters it takes at the start of the
text, and the first one that takes any wins.
-/
namespace SqlReview.Layout

/-- What has been cut so far, as far as it decides about the next piece: the last piece that is not
blank, the last reserved word and the last clause phrase. -/
structure Recent where
  previous : Option Piece
  reserved : Option Piece
  clause : Option Piece

def inLine (c : Char) : Bool := c != '\n' && c != '\r'

/-- A comment up to the end of its line, which a carriage return alone does not make. -/
def lineCommentLength? (s : Text) : Option Nat :=
  if s.head? = some '#' || ['-', '-'].isPrefixOf s then
    match s.dropWhile inLine with
    | [] | '\n' :: _ | '\r' :: '\n' :: _ => some (s.takeWhile inLine).length
    | _ => none
  else none

def blockBodyLength : Text → Nat
  | [] => 0
  | [_] => 1
  | c :: d :: s => if c = '*' ∧ d = '/' then 2 else blockBodyLength (d :: s) + 1

def blockCommentLength? : Text → Option Nat
  | '/' :: '*' :: s => some (blockBodyLength s + 2)
  | _ => none

def typeMarkLength? (recent : Recent) (s : Text) : Option Nat :=
  let allowed := recent.previous.all fun p =>
    p.kind ∈ [.closing, .placeholder, .reserved, .string, .number, .typeMark, .word]
  if allowed && ([':', ':'].isPrefixOf s || ['[', ']'].isPrefixOf s) then some 2 else none

/-- The characters up to and including the closing quote. An escape character before a quote takes
the quote into the body. -/
def quotedLength? (quote : Char) (escapes : List Char) : Text → Option Nat
  | [] => none
  | [c] => if c = quote then some 1 else none
  | c :: d :: s =>
    if escapes.contains c && d == quote then (quotedLength? quote escapes s).map (· + 2)
    else if c = quote then some 1
    else (quotedLength? quote escapes (d :: s)).map (· + 1)

def stringLength? : Text → Option Nat
  | [] => none
  | c :: s =>
    if c = '\x60' then (quotedLength? c [c] s).map (· + 1)
    else if c = '"' ∨ c = '\'' then (quotedLength? c [c, '\\'] s).map (· + 1)
    else if s.head? = some '\'' then
      if c = 'N' ∨ c = 'E' then (quotedLength? '\'' ['\'', '\\'] s.tail).map (· + 2)
      else if c = 'x' ∨ c = 'X' then (quotedLength? '\'' [] s.tail).map (· + 2)
      else none
    else none

def digitCount (s : Text) : Nat := (s.takeWhile Text.isAsciiDigit).length

def numberLength? (s : Text) : Option Nat :=
  let sign := if s.head? = some '-' then 1 else 0
  let whole := digitCount (s.drop sign)
  if whole = 0 then none
  else
    let dotAt := sign + whole
    let mantissa :=
      if (s.drop dotAt).head? = some '.' then dotAt + 1 + digitCount (s.drop (dotAt + 1)) else dotAt
    if (s.drop mantissa).head? = some 'e' then
      let signAt := (s.drop (mantissa + 1)).head?
      let digitsAt := if signAt = some '-' ∨ signAt = some '+' then mantissa + 2 else mantissa + 1
      let digits := digitCount (s.drop digitsAt)
      some (if digits = 0 then mantissa else digitsAt + digits)
    else some mantissa

def atWordEnd (s : Text) : Bool := !(s.head?.any Text.isNamePart)

def afterWord? : Text → Text → Option Text
  | [], s => some s
  | letter :: word, c :: s => if c.toUpper = letter then afterWord? word s else none
  | _ :: _, [] => none

def phraseLength? : List Text → Text → Option Nat
  | [], _ => none
  | [w], s => (afterWord? w s).bind fun rest => if atWordEnd rest then some w.length else none
  | w :: v :: ws, s =>
    (afterWord? w s).bind fun rest =>
      let gap := (rest.takeWhile Text.isBlank).length
      if gap = 0 then none
      else (phraseLength? (v :: ws) (rest.drop gap)).map (· + (w.length + gap))

def anyPhraseLength? (phrases : List (List Text)) (s : Text) : Option Nat :=
  phrases.findSome? fun p => phraseLength? p s

/-- Three clause words written in capitals act by what clause they stand in. -/
def clauseKind (recent : Recent) (text : Text) : PieceKind :=
  let last := recent.clause.map Piece.clauseName
  if text = "EXCEPT" ∧ last = some "SELECT" then .reserved
  else if text = "SET" ∧ last = some "UPDATE" then .follower
  else if text = "USING" ∧ last ≠ some "MERGE INTO" ∧ last ≠ some "DELETE FROM" then .reserved
  else .clause

/-- The AND of a BETWEEN, both in capitals, does not break the line. -/
def breakerKind (recent : Recent) (text : Text) : PieceKind :=
  if text = "AND" ∧ recent.reserved.map Piece.text = some "BETWEEN" then .reserved else .breaker

/-- A reserved phrase; after a period it is a name. -/
def reserved? (recent : Recent) (s : Text) : Option Piece :=
  let after := recent.previous.any fun p => p.text = ['.']
  let start := s.head?.any fun c => Text.isAsciiLetter c || c == '$'
  if after || !start then none
  else
    match anyPhraseLength? clausePhrases s with
    | some n => some ⟨clauseKind recent (s.take n), s.take n⟩
    | none =>
      match anyPhraseLength? followerPhrases s with
      | some n => some ⟨.follower, s.take n⟩
      | none =>
        match anyPhraseLength? breakerPhrases s with
        | some n => some ⟨breakerKind recent (s.take n), s.take n⟩
        | none =>
          match anyPhraseLength? joinPhrases s with
          | some n => some ⟨.breaker, s.take n⟩
          | none =>
            match anyPhraseLength? flatPhrases s with
            | some n => some ⟨.flatClause, s.take n⟩
            | none => (anyPhraseLength? reservedPhrases s).map fun n => ⟨.reserved, s.take n⟩

def operatorChars : List Char := "!<>=|:-~*&@^?#/%".toList

def operatorLength? (s : Text) : Option Nat :=
  let n := ((s.take 5).takeWhile fun c => operatorChars.contains c).length
  if 2 ≤ n then some n else none

/-- The quoted name of a placeholder: only a backslash escapes its quotes, and only doubling a
backtick. -/
def quotedNameLength? : Text → Option Nat
  | [] => none
  | c :: s =>
    if c = '\x60' then (quotedLength? c [c] s).map (· + 1)
    else if c = '"' ∨ c = '\'' then (quotedLength? c ['\\'] s).map (· + 1)
    else none

def isPlaceholderPart (c : Char) : Bool :=
  Text.isAlphanumeric c || c == '.' || c == '_' || c == '$'

def placeholderLength? : Text → Option Nat
  | [] => none
  | c :: s =>
    if (c = '?' ∨ c = '$') ∧ digitCount s ≠ 0 then some (digitCount s + 1)
    else if c = '?' then some 1
    else if c = '@' ∨ c = ':' ∨ c = '$' then
      let name := (s.takeWhile isPlaceholderPart).length
      if name ≠ 0 then some (name + 1)
      else if c = '$' then none
      else (quotedNameLength? s).map (· + 1)
    else none

/-- The piece at the start of a text that does not begin with a blank. Any character is an operator
by itself. -/
def piece (recent : Recent) (s : Text) : Piece :=
  let made (kind : PieceKind) (n : Option Nat) : Option Piece := n.map fun n => ⟨kind, s.take n⟩
  let found :=
    (made .lineComment (lineCommentLength? s))
      |>.or (made .blockComment (blockCommentLength? s))
      |>.or (made .typeMark (typeMarkLength? recent s))
      |>.or (made .string (stringLength? s))
      |>.or (made .opening (if s.head? = some '(' then some 1 else phraseLength? ["CASE"] s))
      |>.or (made .closing (if s.head? = some ')' then some 1 else phraseLength? ["END"] s))
      |>.or (made .number (numberLength? s))
      |>.or (reserved? recent s)
      |>.or (made .operator (operatorLength? s))
      |>.or (made .placeholder (placeholderLength? s))
      |>.or (made .word (match (s.takeWhile Text.isNamePart).length with
        | 0 => none
        | n => some n))
  found.getD ⟨.operator, s.take 1⟩

def Recent.after (recent : Recent) (p : Piece) : Recent where
  previous := if p.kind = .space then recent.previous else some p
  reserved := if p.kind = .reserved then some p else recent.reserved
  clause := if p.kind = .clause then some p else recent.clause

def piecesFrom (recent : Recent) (s : Text) : List Piece :=
  match s with
  | [] => []
  | c :: r =>
    let p : Piece :=
      if Text.isBlank c then ⟨.space, (c :: r).takeWhile Text.isBlank⟩ else piece recent (c :: r)
    p :: piecesFrom (recent.after p) (r.drop (p.text.length - 1))
termination_by s.length
decreasing_by simp only [List.length_cons, List.length_drop]; omega

def pieces (s : Text) : List Piece := piecesFrom ⟨none, none, none⟩ s

end SqlReview.Layout
