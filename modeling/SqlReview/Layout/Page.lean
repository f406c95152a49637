import SqlReview.Text.Basic

/-!
The page that a layout is written on, and the indentation that it keeps. The text is held with its
last character first, since all editing happens at its end.
-/
namespace SqlReview.Layout

structure Settings where
  indentSize : Nat
  uppercaseKeywords : Bool
deriving Repr, DecidableEq

def Settings.maxIndent : Nat := 255

/-- A step of the indentation belongs to a clause or to a block between parentheses. -/
inductive Level where
  | clause
  | block
deriving Repr, DecidableEq

/-- What a block remembers: its last reserved word, and whether its last clause phrase kept the line
going. -/
structure Block where
  reserved : Text
  clauseOnLine : Bool
deriving Repr, DecidableEq

def Block.new : Block := ⟨[], false⟩

/-- Levels and blocks are listed from the innermost out; `inline` counts the blocks that are open
since one was found to fit on a line, and `depth` all open blocks. -/
structure Page where
  reversed : Text
  levels : List Level
  blocks : List Block
  inline : Nat
  depth : Nat
deriving Repr, DecidableEq

namespace Page

def blank : Page := ⟨[], [], [.new], 0, 0⟩

def text (page : Page) : Text := page.reversed.reverse

def isInline (page : Page) : Bool := page.inline != 0

def add (s : Text) (page : Page) : Page := { page with reversed := s.reverse ++ page.reversed }

def addSpace (page : Page) : Page := page.add [' ']

def trimSpaces (page : Page) : Page :=
  { page with reversed := page.reversed.dropWhile fun c => c == ' ' || c == '\t' }

def trimBreaks (page : Page) : Page :=
  { page with
    reversed := page.reversed.dropWhile fun c => c == ' ' || c == '\t' || c == '\n' || c == '\r' }

def indentText (settings : Settings) (page : Page) : Text :=
  List.replicate (min settings.indentSize Settings.maxIndent * page.levels.length) ' '

def newline (settings : Settings) (page : Page) : Page :=
  let page := page.trimSpaces
  let page := if page.reversed.head? = some '\n' then page else page.add ['\n']
  page.add (page.indentText settings)

def pushLevel (level : Level) (page : Page) : Page := { page with levels := level :: page.levels }

def popClause (page : Page) : Page :=
  match page.levels with
  | .clause :: levels => { page with levels }
  | _ => page

def block (page : Page) : Block := page.blocks.headD .new

def setBlock (block : Block) (page : Page) : Page :=
  { page with blocks := block :: page.blocks.tail }

def setReserved (word : Text) (page : Page) : Page :=
  page.setBlock { page.block with reserved := word }

def setClauseOnLine (onLine : Bool) (page : Page) : Page :=
  page.setBlock { page.block with clauseOnLine := onLine }

def openBlock (page : Page) : Page :=
  { page with levels := .block :: page.levels, blocks := .new :: page.blocks }

def closeBlock (page : Page) : Page :=
  { page with
    levels := (page.levels.dropWhile (· = .clause)).tail
    blocks := page.blocks.tail }

end Page

end SqlReview.Layout
