import SqlReview.Text.Pattern

/-!
Joins with a predicate. Every JOIN word is looked at in the text up to the parenthesis that
encloses it; it counts if an ON outside parentheses belongs to it, which no other join or later
clause comes before.
-/
namespace SqlReview.Query

/-- The text between JOIN and ON, and the predicate after ON. -/
structure JoinCondition where
  table : Text
  condition : Text
deriving Repr, DecidableEq

def joinLeads : List Text :=
  (["INNER", "LEFT", "RIGHT", "FULL", "OUTER", "CROSS", "NATURAL"] : List String).map String.toList

def leadLength? (s : Text) : Option Nat :=
  joinLeads.findSome? fun lead =>
    let gap := Pattern.blankCount (s.drop lead.length)
    if Pattern.spells lead s && gap != 0 then some (lead.length + gap) else none

/-- The number of characters of all leading words, the first `skip` of which are known to belong
to one. -/
def leadsLengthFrom : (skip : Nat) → Text → Nat
  | _, [] => 0
  | skip + 1, _ :: s => leadsLengthFrom skip s + 1
  | 0, c :: s =>
    match leadLength? (c :: s) with
    | some (n + 1) => leadsLengthFrom n s + 1
    | _ => 0

def leadsLength (s : Text) : Nat := leadsLengthFrom 0 s

def joinKeyword : Pattern := fun before s =>
  if Pattern.inWord before then none
  else (Pattern.word "JOIN" none (s.drop (leadsLength s))).map (leadsLength s + ·)

def predicateEnd : Pattern :=
  .oneOf [joinKeyword, .word "WHERE", .phrase "GROUP" "BY", .phrase "ORDER" "BY", .word "LIMIT"]

def balance (s : Text) : Int :=
  s.foldl (fun n c => if c = '(' then n + 1 else if c = ')' then n - 1 else n) 0

/-- The text before the parenthesis that closes one opened before the text. -/
def withinEnclosing : (depth : Nat) → Text → Text
  | _, [] => []
  | depth, c :: s =>
    if c = '(' then c :: withinEnclosing (depth + 1) s
    else if c = ')' then
      match depth with
      | 0 => []
      | depth + 1 => c :: withinEnclosing depth s
    else c :: withinEnclosing depth s

def firstOutside? (p : Pattern) (s : Text) : Option Occurrence :=
  (p.occurrences s).find? fun found => balance found.before = 0

/-- Reads the text after a JOIN up to its enclosing parenthesis. -/
def JoinCondition.ofScope? (scope : Text) : Option JoinCondition :=
  match firstOutside? (.word "ON") scope with
  | none => none
  | some on =>
    if (firstOutside? predicateEnd on.before).isSome then none
    else
      let predicate := match firstOutside? predicateEnd on.after with
        | some boundary => boundary.before
        | none => on.after
      some ⟨Text.trim on.before, Text.trim predicate⟩

def joinConditions (query : Text) : List JoinCondition :=
  (joinKeyword.occurrences query).filterMap fun found =>
    JoinCondition.ofScope? (withinEnclosing 0 found.after)

end SqlReview.Query
