import SqlReview.Record.Document
import SqlReview.Sql.Statement

/-!
Tokens and statement kinds as documents.
-/
namespace SqlReview.Sql

variable {V : Type} [Document V]

def TokenKind.toJson (kind : TokenKind) : Json := .string kind.name

def TokenKind.read? (v : V) : Option TokenKind := Record.choice? TokenKind.all TokenKind.name v

def StatementKind.toJson (kind : StatementKind) : Json := .string kind.name

def StatementKind.read? (v : V) : Option StatementKind :=
  Record.choice? StatementKind.all StatementKind.name v

def Token.toJson (t : Token) : Json :=
  .ofFields [("kind", t.kind.toJson), ("text", .string t.text), ("position", .ofNat t.position)]

def Token.read? (v : V) : Option Token := do
  let m ← Record.members? 3 v
  let kind ← m.required "kind" 0 TokenKind.read?
  let text ← m.required "text" 1 Document.text?
  let position ← m.required "position" 2 Document.natural?
  some { kind, text, position }

end SqlReview.Sql
