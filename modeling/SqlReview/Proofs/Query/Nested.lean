import SqlReview.Proofs.Sql.Writing
import SqlReview.Query.Join

/-!
SELECT statements nested to any depth: a derived table or the right side of an IN is a statement
again, with joins of its own. Each knows its text and the joins with a predicate in it, in the order
of their JOIN words.
-/
namespace SqlReview.Query.Nested

open Sql

structure Blanks where
  text : Text
  blank : ∀ c ∈ text, Text.isBlank c = true

structure Space extends Blanks where
  filled : text ≠ []

/-- A run of word characters that is no reserved word in any letter case. -/
structure Word where
  text : Text
  filled : text ≠ []
  word : ∀ c ∈ text, Text.isWord c = true
  free : ∀ w ∈ reservedWords, Pattern.isSpelling w text = false

structure Operand where
  negative : Bool
  first : Word
  others : List Word

def Operand.text (o : Operand) : Text :=
  (if o.negative then ['-'] else []) ++ (o.first.text ++ o.others.flatMap fun w => '.' :: w.text)

structure Comparison where
  left : Operand
  before : Blanks
  comparator : Comparator
  after : Blanks
  right : Operand

def Comparison.text (c : Comparison) : Text :=
  c.left.text ++ ((c.before.text ++ (c.comparator.text ++ c.after.text)) ++ c.right.text)

structure Alias where
  as_ : Option (Keyword "AS" × Space)
  name : Word

def Alias.text (a : Alias) : Text :=
  match a.as_ with
  | some (k, gap) => k.text ++ (gap.text ++ a.name.text)
  | none => a.name.text

structure Between (w : Text) where
  before : Space
  keyword : Keyword w
  after : Space

def Between.text {w : Text} (b : Between w) : Text :=
  b.before.text ++ (b.keyword.text ++ b.after.text)

structure Lead where
  word : Text
  known : word ∈ joinLeads
  keyword : Keyword word
  gap : Space

structure JoinWords where
  before : Space
  leads : List Lead
  join : Keyword "JOIN"

def JoinWords.leadsText (j : JoinWords) : Text :=
  j.leads.flatMap fun l => l.keyword.text ++ l.gap.text

def JoinWords.text (j : JoinWords) : Text := j.before.text ++ (j.leadsText ++ j.join.text)

structure OrderBy where
  before : Space
  order : Keyword "ORDER"
  gap : Space
  by_ : Keyword "BY"
  after : Space
  name : Word

def OrderBy.text (o : OrderBy) : Text :=
  o.before.text ++ (o.order.text ++ (o.gap.text ++ (o.by_.text ++ (o.after.text ++ o.name.text))))

structure Opening where
  select : Keyword "SELECT"
  after : Space
  column : Word
  before : Space
  from_ : Keyword "FROM"

def Opening.text (o : Opening) : Text :=
  o.select.text ++ (o.after.text ++ (o.column.text ++ (o.before.text ++ o.from_.text)))

mutual

/-- What rows are taken from, with the blanks before it. -/
inductive Source where
  | table (gap : Space) (name : Word) (alias_ : Option (Space × Alias))
  | derived (gap opening : Blanks) (s : Select) (closing after : Blanks) (alias_ : Alias)

inductive Predicate where
  | comparison (c : Comparison)
  | member (left : Operand) (gap : Space) (in_ : Keyword "IN") (after opening : Blanks)
    (s : Select) (closing : Blanks)

/-- The joins and clauses after a source. A join without a predicate is a CROSS JOIN, or any other
one that has no ON. -/
inductive Tail where
  | done (order : Option OrderBy)
  | filter (where_ : Between "WHERE") (p : Predicate) (order : Option OrderBy)
  | cross (join : JoinWords) (source : Source) (rest : Tail)
  | on (join : JoinWords) (source : Source) (on_ : Between "ON") (p : Predicate) (rest : Tail)

inductive Select where
  | mk (opening : Opening) (source : Source) (tail : Tail)

end

def Source.gap : Source → Text
  | .table gap _ _ => gap.text
  | .derived gap .. => gap.text

section Texts

def aliasText (a : Option (Space × Alias)) : Text :=
  (a.map fun a => a.1.text ++ a.2.text).getD []

def orderText (o : Option OrderBy) : Text := (o.map OrderBy.text).getD []

mutual

def Source.text : Source → Text
  | .table _ name alias_ => name.text ++ aliasText alias_
  | .derived _ opening s closing after alias_ =>
    '(' :: (opening.text ++ (s.text ++ closing.text) ++ ')' :: (after.text ++ alias_.text))

def Predicate.text : Predicate → Text
  | .comparison c => c.text
  | .member left gap in_ after opening s closing =>
    (left.text ++ (gap.text ++ in_.text)) ++
      (after.text ++ '(' :: (opening.text ++ (s.text ++ closing.text) ++ [')']))

def Tail.text : Tail → Text
  | .done order => orderText order
  | .filter where_ p order => where_.text ++ (p.text ++ orderText order)
  | .cross join source rest => join.text ++ (source.gap ++ source.text ++ rest.text)
  | .on join source on_ p rest =>
    join.text ++ (source.gap ++ source.text ++ (on_.text ++ (p.text ++ rest.text)))

def Select.text : Select → Text
  | .mk opening source tail => opening.text ++ (source.gap ++ source.text ++ tail.text)

end

end Texts

section Conditions

mutual

def Source.conditions : Source → List JoinCondition
  | .table .. => []
  | .derived _ _ s _ _ _ => s.conditions

def Predicate.conditions : Predicate → List JoinCondition
  | .comparison _ => []
  | .member _ _ _ _ _ s _ => s.conditions

/-- A join's own condition comes before those in its table and in its predicate. -/
def Tail.conditions : Tail → List JoinCondition
  | .done _ => []
  | .filter _ p _ => p.conditions
  | .cross _ source rest => source.conditions ++ rest.conditions
  | .on _ source _ p rest =>
    ⟨source.text, p.text⟩ :: (source.conditions ++ (p.conditions ++ rest.conditions))

/-- One condition for every join with a predicate, at any depth. -/
def Select.conditions : Select → List JoinCondition
  | .mk _ source tail => source.conditions ++ tail.conditions

end

end Conditions

end SqlReview.Query.Nested
