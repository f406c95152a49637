import SqlReview.Sql.Scan

/-!
Tokens are lexemes reduced to a coarse kind, their text and their place in the stream. Every
analysis of a query that is not plain text search reads these.
-/
namespace SqlReview.Sql

/-- Words that are keywords, in any case, unless they stand in quotes. -/
def reservedWords : List Text :=
  (["ALL", "ALTER", "AND", "AS", "ASC", "BETWEEN", "BY", "CASE", "CREATE", "CROSS", "DELETE",
    "DESC", "DISTINCT", "DROP", "ELSE", "END", "EXCEPT", "EXISTS", "FETCH", "FOR", "FROM",
    "FULL", "GROUP", "HAVING", "IN", "INNER", "INSERT", "INTERSECT", "INTO", "IS", "JOIN",
    "LEFT", "LIKE", "LIMIT", "NATURAL", "NOT", "NULL", "OFFSET", "ON", "OR", "ORDER", "OUTER",
    "OVER", "PARTITION", "RETURNING", "RIGHT", "SELECT", "SET", "THEN", "UNION", "UPDATE",
    "USING", "VALUES", "WHEN", "WHERE", "WINDOW", "WITH"] : List String).map String.toList

def isReserved (word : Text) : Bool := reservedWords.any (Text.eqIgnoreCase · word)

inductive TokenKind where
  | keyword
  | identifier
  | punctuation
  | literal
  | whitespace
  | other
deriving Repr, DecidableEq

def TokenKind.all : List TokenKind :=
  [.keyword, .identifier, .punctuation, .literal, .whitespace, .other]

def TokenKind.name : TokenKind → Text
  | .keyword => "keyword"
  | .identifier => "identifier"
  | .punctuation => "punctuation"
  | .literal => "literal"
  | .whitespace => "whitespace"
  | .other => "other"

/-- Only plain, national and hexadecimal strings count as literals. -/
def Lexeme.kind : Lexeme → TokenKind
  | .blank _ | .lineComment _ | .blockComment _ => .whitespace
  | .word name => if isReserved name then .keyword else .identifier
  | .quotedWord _ _ => .identifier
  | .number _ | .placeholder _ => .literal
  | .string form _ =>
    match form with
    | .plain | .national | .hex => .literal
    | _ => .other
  | .symbol sign =>
    match sign with
    | [c] => if c ∈ [',', ';', '(', ')', '.'] then .punctuation else .other
    | _ => .other

structure Token where
  kind : TokenKind
  text : Text
  position : Nat
deriving Repr, DecidableEq

namespace Token

def isKeyword (word : Text) (t : Token) : Bool :=
  t.kind == .keyword && Text.eqIgnoreCase t.text word

def isAnyKeyword (words : List Text) (t : Token) : Bool := words.any fun w => t.isKeyword w

def isWhitespace (t : Token) : Bool := t.kind == .whitespace

def isPunctuation (c : Char) (t : Token) : Bool := t.kind == .punctuation && t.text == [c]

end Token

def tokensOf (ls : List Lexeme) : List Token :=
  ls.mapIdx fun position l => ⟨l.kind, l.spelling, position⟩

def tokenize (query : Text) : Except Fault (List Token) := (lexemes query).map tokensOf

end SqlReview.Sql
