import SqlReview.Query.Facts

/-!
Columns worth an index, in the order in which a query's facts name them: each table's column of a
condition, both sides of a join's equality, and each table's sort items.
-/
namespace SqlReview.Index

open Query

/-- Every maximal run of word characters, with the text after it. -/
def wordRuns : Text → List (Text × Text)
  | [] => []
  | c :: s =>
    if Text.isWord c then
      match Pattern.inWord s.head?, wordRuns s with
      | true, (run, rest) :: more => (c :: run, rest) :: more
      | _, runs => ([c], s) :: runs
    else wordRuns s

/-- Operators written in letters count in capitals alone. -/
def letterOperators : List Text := (["LIKE", "IN"] : List String).map String.toList

def operators : List Text :=
  (["=", ">", "<", "!="] : List String).map String.toList ++ letterOperators

/-- The longest proper start of a run that an operator in letters follows within the run. -/
def startBeforeOperator? (run : Text) : Option Text :=
  ((List.range run.length).reverse.find? fun n =>
    0 < n && letterOperators.any fun op => op.isPrefixOf (run.drop n)).map run.take

/-- The column that a condition compares: the first run of word characters that an operator
follows, after any blanks or inside the run itself. -/
def conditionColumn? (condition : Text) : Option Text :=
  (wordRuns condition).findSome? fun (run, rest) =>
    if operators.any fun op => op.isPrefixOf (Text.trimLeft rest) then some run
    else startBeforeOperator? run

def qualified? (s : Text) : Option (Text × Text × Text) :=
  let table := s.takeWhile Text.isWord
  match s.dropWhile Text.isWord with
  | '.' :: rest =>
    let column := rest.takeWhile Text.isWord
    if table.isEmpty || column.isEmpty then none
    else some (table, column, rest.dropWhile Text.isWord)
  | _ => none

def joinSides? (condition : Text) : Option ((Text × Text) × (Text × Text)) :=
  (wordRuns condition).findSome? fun (run, rest) =>
    match qualified? (run ++ rest) with
    | none => none
    | some (table, column, after) =>
      match Text.trimLeft after with
      | '=' :: right =>
        (qualified? (Text.trimLeft right)).map fun (table', column', _) =>
          ((table, column), (table', column'))
      | _ => none

/-- The text without a last word that is the given one, nor the blanks before that word. -/
def stripLast? (word s : Text) : Option Text :=
  let n := s.length - word.length
  let kept := s.take n
  if word.length ≤ s.length ∧ Pattern.spells word (s.drop n) ∧ kept.getLast?.any Text.isBlank then
    some (Text.trimRight kept)
  else none

def sortColumn (item : Text) : Text :=
  ((stripLast? "ASC" item).orElse fun _ => stripLast? "DESC" item).getD item

structure Candidate where
  table : Text
  column : Text
  reason : Text
deriving Repr, DecidableEq

def conditionCandidates (tables : List Text) (condition : Text) : List Candidate :=
  match conditionColumn? condition with
  | some column =>
    tables.map fun table => ⟨table, column, "Used in WHERE condition: " ++ condition⟩
  | none => []

def joinCandidates (join : JoinCondition) : List Candidate :=
  match joinSides? join.condition with
  | some (left, right) =>
    let reason : Text := "Used in JOIN condition: " ++ join.condition
    [⟨left.1, left.2, reason⟩, ⟨right.1, right.2, reason⟩]
  | none => []

def sortCandidates (tables : List Text) (item : Text) : List Candidate :=
  tables.map fun table => ⟨table, sortColumn item, "Used in ORDER BY clause"⟩

def candidates (facts : Facts) : List Candidate :=
  facts.whereConditions.flatMap (conditionCandidates facts.tables) ++
    facts.joinConditions.flatMap joinCandidates ++
    facts.orderItems.flatMap (sortCandidates facts.tables)

end SqlReview.Index
