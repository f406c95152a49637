import SqlReview.Plan.Tree
import SqlReview.Text.Capitals
import SqlReview.Text.Pattern

/-!
The detail of a step in a plan of SQLite, a phrase such as `SCAN users` or
`SEARCH orders USING INDEX idx (user_id=?)`. The work is told by how the phrase begins and what it
contains; table and index are read off their places in it.
-/
namespace SqlReview.Plan.Sqlite

open Pattern (spells blankCount)

/-- What a detail in capitals begins with, tried in turn, and the first of some phrases in it that
decides the work; the last entry is the work when there is none of them. -/
def works : List (List String × List (String × Operation) × Operation) :=
  [(["SCAN"],
      [("COVERING INDEX", .indexOnlyScan), ("USING INDEX", .indexScan), ("SUBQUERY", .subquery),
        ("CONSTANT ROW", .other)], .fullScan),
    (["SEARCH"], [("COVERING INDEX", .indexOnlyScan)], .indexScan),
    (["USE TEMP B-TREE"],
      [("ORDER BY", .sort), ("DISTINCT", .distinct), ("GROUP BY", .aggregate)], .other),
    (["CORRELATED", "SCALAR SUBQUERY", "LIST SUBQUERY"], [], .subquery),
    (["CO-ROUTINE", "MATERIALIZE"], [], .materialize),
    (["COMPOUND", "UNION", "MERGE", "LEFT-MOST SUBQUERY"], [], .setOperation),
    (["RIGHT-JOIN", "LEFT"], [], .join)]

def operationOf (capitals : Text) : Operation :=
  match works.find? fun entry => entry.1.any fun start => start.toList.isPrefixOf capitals with
  | some (_, phrases, otherwise) =>
    ((phrases.find? fun phrase => Text.contains phrase.1.toList capitals).map (·.2)).getD otherwise
  | none => .other

def afterWord? (word s : Text) : Option Text :=
  let rest := s.drop word.length
  if spells word s && blankCount rest != 0 then some (Text.trimLeft rest) else none

def firstWord (s : Text) : Text := s.takeWhile fun c => !Text.isBlank c

/-- The table after SCAN or SEARCH; the word TABLE before it is passed over. -/
def tableOf? (detail : Text) : Option Text :=
  ((afterWord? "SCAN" detail).or (afterWord? "SEARCH" detail)).bind fun rest =>
    let name := firstWord (match afterWord? "TABLE" rest with
      | some (c :: name) => c :: name
      | _ => rest)
    if name.isEmpty then none else some name

def indexHere? (s : Text) : Option Text :=
  (afterWord? "USING" s).bind fun rest =>
    (afterWord? "INDEX" ((afterWord? "COVERING" rest).getD rest)).bind fun rest =>
      let name := rest.takeWhile fun c => !Text.isBlank c && c != '('
      if name.isEmpty then none else some name

def indexOf? : Text → Option Text
  | [] => none
  | c :: s => (indexHere? (c :: s)).or (indexOf? s)

def nodeOf (detail : Text) : Node :=
  let detail := Text.trim detail
  let capitals := Text.capitals detail
  let operation := operationOf capitals
  { operation
    label := detail
    relation := if operation.isScan then tableOf? detail else none
    index := match indexOf? detail with
      | some index => some index
      | none =>
        if Text.contains "INTEGER PRIMARY KEY" capitals then some "PRIMARY KEY" else none
    rows := none
    children := [] }

end SqlReview.Plan.Sqlite
