import SqlReview.Text.CharClass

/-!
The pieces that a query is cut into before it is laid out. They differ from its lexemes: a phrase of
several reserved words is one piece, and nothing is ever refused.
-/
namespace SqlReview.Layout

/-- What a piece does to the layout. A clause word starts a line at the outer level and indents what
follows; a flat one does not indent; a follower starts a line below another clause word and
indents; a breaker starts a line inside its clause. -/
inductive PieceKind where
  | space
  | lineComment
  | blockComment
  | clause
  | flatClause
  | follower
  | breaker
  | reserved
  | operator
  | opening
  | closing
  | placeholder
  | typeMark
  | string
  | number
  | word
deriving Repr, DecidableEq

structure Piece where
  kind : PieceKind
  text : Text
deriving Repr, DecidableEq

namespace Piece

/-- A clause phrase that creates or selects goes by its first word, any other by its whole text. -/
def clauseName (p : Piece) : Text :=
  if ("CREATE" : Text).isPrefixOf p.text then "CREATE"
  else if ("SELECT" : Text).isPrefixOf p.text then "SELECT"
  else p.text

/-- Whether a type mark needs a space before this piece. -/
def isReserved (p : Piece) : Bool :=
  p.kind == .reserved || p.kind == .breaker || p.kind == .follower

end Piece

end SqlReview.Layout
