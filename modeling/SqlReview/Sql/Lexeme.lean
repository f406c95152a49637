import SqlReview.Text.CharClass

/-!
The lexemes of a query. Each is written back by `spelling`, which is canonical: a doubled quote
comes back single, escapes come back resolved, and line breaks and exotic blanks come back plain.
-/
namespace SqlReview.Sql

inductive StringForm where
  | plain
  | national
  | hex
  | escaped
  | unicode
  | bytes (quote : Char)
  | raw (quote : Char) (triple : Bool)
  | dollar (tag : Text)
deriving Repr, DecidableEq

def StringForm.opening : StringForm → Text
  | .plain => "'"
  | .national => "N'"
  | .hex => "X'"
  | .escaped => "E'"
  | .unicode => "U&'"
  | .bytes quote => ['B', quote]
  | .raw quote triple => 'R' :: List.replicate (if triple then 3 else 1) quote
  | .dollar tag => '$' :: tag ++ ['$']

def StringForm.closing : StringForm → Text
  | .bytes quote => [quote]
  | .raw quote triple => List.replicate (if triple then 3 else 1) quote
  | .dollar tag => '$' :: tag ++ ['$']
  | _ => ['\'']

inductive Lexeme where
  | blank (c : Char)
  | lineComment (body : Text)
  | blockComment (body : Text)
  | word (name : Text)
  | quotedWord (quote : Char) (name : Text)
  | number (numeral : Text)
  | string (form : StringForm) (body : Text)
  | placeholder (name : Text)
  | symbol (sign : Text)
deriving Repr, DecidableEq

def Lexeme.spelling : Lexeme → Text
  | .blank c => [c]
  | .lineComment body => "--" ++ body
  | .blockComment body => "/*" ++ body ++ "*/"
  | .word name => name
  | .quotedWord quote name => quote :: name ++ [quote]
  | .number numeral => numeral
  | .string form body => form.opening ++ body ++ form.closing
  | .placeholder name => name
  | .symbol sign => sign

inductive LexicalError where
  | unterminatedString
  | unterminatedEscapedString
  | unterminatedUnicodeString
  | endInHexDigits
  | notHexDigit (c : Char)
  | notCharacter (code : Nat)
  | unclosedQuote (quote : Char)
  | unterminatedComment
  | unterminatedDollarString
  | unterminatedTaggedString
deriving Repr, DecidableEq

def hexText (n : Nat) : Text := Nat.toDigits 16 n

def LexicalError.message : LexicalError → Text
  | .unterminatedString => "Unterminated string literal"
  | .unterminatedEscapedString => "Unterminated encoded string literal"
  | .unterminatedUnicodeString => "Unterminated unicode encoded string literal"
  | .endInHexDigits => "Unexpected EOF while parsing hex digit in escaped unicode string."
  | .notHexDigit c => "Invalid hex digit in escaped unicode string: " ++ [c]
  | .notCharacter code => "Invalid unicode character: " ++ hexText code
  | .unclosedQuote quote => "Expected close delimiter '" ++ [quote] ++ "' before EOF."
  | .unterminatedComment => "Unexpected EOF while in a multi-line comment"
  | .unterminatedDollarString => "Unterminated dollar-quoted string"
  | .unterminatedTaggedString => "Unterminated dollar-quoted, expected $"

/-- An error and the text from its place to the end of the query. -/
structure Fault where
  error : LexicalError
  rest : Text
deriving Repr, DecidableEq

structure Location where
  line : Nat
  column : Nat
deriving Repr, DecidableEq

/-- The place right after the given text: only a line feed starts a new line. -/
def Location.after (s : Text) : Location :=
  s.foldl (fun at_ c =>
    if c = '\n' then ⟨at_.line + 1, 1⟩ else ⟨at_.line, at_.column + 1⟩) ⟨1, 1⟩

def Fault.location (query : Text) (fault : Fault) : Location :=
  .after (query.take (query.length - fault.rest.length))

def Fault.message (query : Text) (fault : Fault) : Text :=
  let place := fault.location query
  "Failed to tokenize query: " ++ fault.error.message ++ " at Line: " ++ Text.ofNat place.line ++
    ", Column: " ++ Text.ofNat place.column

end SqlReview.Sql
