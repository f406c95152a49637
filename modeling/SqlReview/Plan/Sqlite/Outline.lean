import SqlReview.Plan.Sqlite.Detail

/-!
The plan of SQLite as its shell prints it: one line per node, indented by three characters per
level. A line stands below the nearest line before it that is indented less.
-/
namespace SqlReview.Plan.Sqlite

def header : Text := "QUERY PLAN"

def isDrawing (c : Char) : Bool := c == ' ' || c == '|' || c == '\x60' || c == '-'

/-- Blank lines and the header are no nodes. -/
def isKept (line : Text) : Bool := !(Text.trim line).isEmpty && Text.trim line != header

def lineDepth (line : Text) : Nat := (line.takeWhile isDrawing).length / 3 - 1

structure Branch where
  depth : Nat
  node : Node

/-- Puts a line in front of the branches of the lines after it; those that are deeper up to the
first that is not are its children. -/
def addLine (line : Text) (later : List Branch) : List Branch :=
  let depth := lineDepth line
  let node := nodeOf (line.dropWhile isDrawing)
  let children := later.takeWhile fun b => depth < b.depth
  ⟨depth, { node with children := node.children ++ children.map Branch.node }⟩ ::
    later.dropWhile fun b => depth < b.depth

def readOutline (text : Text) : List Node :=
  (((Text.lines text).filter isKept).foldr addLine []).map Branch.node

end SqlReview.Plan.Sqlite
