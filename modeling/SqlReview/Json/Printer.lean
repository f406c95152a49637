import SqlReview.Json.Value

/-!
JSON text without blanks. Only the quote, the backslash and control characters are escaped.
-/
namespace SqlReview

def Numeral.text : Numeral → Text
  | .natural n => Text.ofNat n
  | .negative n => '-' :: Text.ofNat n
  | .real x => x.text

namespace Json

def escape (c : Char) : Text :=
  match c with
  | '"' => ['\\', '"']
  | '\\' => ['\\', '\\']
  | '\x08' => ['\\', 'b']
  | '\x0c' => ['\\', 'f']
  | '\n' => ['\\', 'n']
  | '\r' => ['\\', 'r']
  | '\t' => ['\\', 't']
  | c =>
    if c.toNat < 32 then
      let digits := Nat.toDigits 16 c.toNat
      ['\\', 'u'] ++ List.replicate (4 - digits.length) '0' ++ digits
    else [c]

def quoted (s : Text) : Text := '"' :: s.flatMap escape ++ ['"']

mutual

def text : Json → Text
  | .null => "null"
  | .bool b => if b then "true" else "false"
  | .number n => n.text
  | .string s => quoted s
  | .array items => '[' :: itemsText items ++ [']']
  | .object fields => '\x7b' :: fieldsText fields ++ ['\x7d']

def itemsText : List Json → Text
  | [] => []
  | [j] => j.text
  | j :: items => j.text ++ ',' :: itemsText items

def fieldsText : List (Text × Json) → Text
  | [] => []
  | [(key, j)] => quoted key ++ ':' :: j.text
  | (key, j) :: fields => quoted key ++ ':' :: j.text ++ ',' :: fieldsText fields

end

end Json

end SqlReview
