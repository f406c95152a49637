import SqlReview.Proofs.Query.JoinScope
import SqlReview.Query.Facts

/-!
Flat SELECT statements: columns and tables by name, joins on a comparison, and conditions, groups,
order and limit after them. Each knows how it is written and which facts it states.
-/
namespace SqlReview.Query

open Sql

/-- A part of a statement: a word and what follows it. -/
structure Phrase where
  head : Solid
  tail : Writing

namespace Phrase

def text (p : Phrase) : Text := p.head.text ++ p.tail.text

def after (b : Break) (p : Phrase) : Writing := (b, p.head) :: p.tail

def extend (p : Phrase) (t : Writing) : Phrase := ⟨p.head, p.tail ++ t⟩

end Phrase

/-- A list between commas, with at least one item. -/
structure Listed (α : Type) where
  first : α
  others : List (Comma × α)

namespace Listed

variable {α : Type}

def items (l : Listed α) : List α := l.first :: l.others.map Prod.snd

def later (phrase : α → Phrase) (others : List (Comma × α)) : Writing :=
  others.flatMap fun x => (phrase x.2).after (.comma x.1)

def body (phrase : α → Phrase) (l : Listed α) : Phrase :=
  (phrase l.first).extend (later phrase l.others)

def after (g : Gap) (phrase : α → Phrase) (l : Listed α) : Writing := (l.body phrase).after (.gap g)

end Listed

def column (n : Name) : Phrase := ⟨.name n, []⟩

structure Alias where
  as_ : Option (Gap × Keyword "AS")
  gap : Gap
  name : Name

def Alias.writing (a : Alias) : Writing :=
  (match a.as_ with
    | some (g, k) => [(.gap g, .keyword (by decide) k)]
    | none => []) ++ [(.gap a.gap, .name a.name)]

structure Table where
  name : Name
  alias_ : Option Alias

namespace Table

def phrase (t : Table) : Phrase := ⟨.name t.name, (t.alias_.map Alias.writing).getD []⟩

/-- What the statement calls the table. -/
def reference (t : Table) : Text := (t.alias_.map (·.name.text)).getD t.name.text

end Table

inductive Operand where
  | name (n : Name)
  | qualified (table column : Name)
  | integer (negative : Bool) (d : Digits)

def Operand.solid : Operand → Solid
  | .name n => .name n
  | .qualified table column => .qualified table column
  | .integer negative d => .integer negative d

structure Comparison where
  left : Operand
  before : Gap
  comparator : Comparator
  after : Gap
  right : Operand

def Comparison.phrase (c : Comparison) : Phrase :=
  ⟨c.left.solid, [(.gap c.before, .sign c.comparator), (.gap c.after, c.right.solid)]⟩

structure LeadWord where
  word : Text
  known : word ∈ joinLeads
  keyword : Keyword word
  gap : Gap

inductive Side where
  | left (k : Keyword "LEFT")
  | right (k : Keyword "RIGHT")
  | full (k : Keyword "FULL")

def Side.lead (s : Side) (gap : Gap) : LeadWord :=
  match s with
  | .left k => ⟨"LEFT", by decide, k, gap⟩
  | .right k => ⟨"RIGHT", by decide, k, gap⟩
  | .full k => ⟨"FULL", by decide, k, gap⟩

/-- What may stand before the JOIN of a join with a predicate. -/
inductive Lead where
  | plain
  | inner (k : Keyword "INNER") (gap : Gap)
  | side (s : Side) (gap : Gap)
  | outer (s : Side) (gap : Gap) (k : Keyword "OUTER") (gap' : Gap)

def Lead.words : Lead → List LeadWord
  | .plain => []
  | .inner k gap => [⟨"INNER", by decide, k, gap⟩]
  | .side s gap => [s.lead gap]
  | .outer s gap k gap' => [s.lead gap, ⟨"OUTER", by decide, k, gap'⟩]

structure OnClause where
  before : Gap
  on : Keyword "ON"
  gap : Gap
  predicate : Comparison

inductive JoinKind where
  | cross (k : Keyword "CROSS") (gap : Gap)
  | on (lead : Lead) (clause : OnClause)

namespace JoinKind

def leads : JoinKind → List LeadWord
  | .cross k gap => [⟨"CROSS", by decide, k, gap⟩]
  | .on lead _ => lead.words

def clause? : JoinKind → Option OnClause
  | .cross _ _ => none
  | .on _ clause => some clause

end JoinKind

structure Join where
  before : Gap
  kind : JoinKind
  join : Keyword "JOIN"
  gap : Gap
  table : Table

def leading (gap : Gap) (leads : List LeadWord) (join : Keyword "JOIN") : Writing :=
  match leads with
  | [] => [(.gap gap, .keyword (by decide) join)]
  | lead :: leads =>
    (.gap gap, .keyword (reserved_of_joinLeads _ lead.known) lead.keyword) ::
      leading lead.gap leads join

def OnClause.writing (c : OnClause) : Writing :=
  (.gap c.before, .keyword (by decide) c.on) :: c.predicate.phrase.after (.gap c.gap)

namespace Join

def scope (j : Join) : Writing :=
  j.table.phrase.after (.gap j.gap) ++ (j.kind.clause?.map OnClause.writing).getD []

def writing (j : Join) : Writing := leading j.before j.kind.leads j.join ++ j.scope

def condition? (j : Join) : Option JoinCondition :=
  j.kind.clause?.map fun c => ⟨j.table.phrase.text, c.predicate.phrase.text⟩

end Join

inductive Connective where
  | and (k : Keyword "AND")
  | or (k : Keyword "OR")

def Connective.solid : Connective → Solid
  | .and k => .keyword (by decide) k
  | .or k => .keyword (by decide) k

structure Link where
  before : Gap
  word : Connective
  after : Gap

structure WhereClause where
  before : Gap
  where_ : Keyword "WHERE"
  gap : Gap
  first : Comparison
  others : List (Link × Comparison)

namespace WhereClause

def later (others : List (Link × Comparison)) : Writing :=
  others.flatMap fun x =>
    (.gap x.1.before, x.1.word.solid) :: x.2.phrase.after (.gap x.1.after)

def body (c : WhereClause) : Phrase := c.first.phrase.extend (later c.others)

def writing (c : WhereClause) : Writing :=
  (.gap c.before, .keyword (by decide) c.where_) :: c.body.after (.gap c.gap)

def comparisons (c : WhereClause) : List Comparison := c.first :: c.others.map Prod.snd

end WhereClause

structure GroupClause where
  before : Gap
  group : Keyword "GROUP"
  gap : Gap
  by_ : Keyword "BY"
  after : Gap
  name : Name

def GroupClause.writing (c : GroupClause) : Writing :=
  [(.gap c.before, .keyword (by decide) c.group), (.gap c.gap, .keyword (by decide) c.by_),
    (.gap c.after, .name c.name)]

inductive Direction where
  | ascending (k : Keyword "ASC")
  | descending (k : Keyword "DESC")

def Direction.solid : Direction → Solid
  | .ascending k => .keyword (by decide) k
  | .descending k => .keyword (by decide) k

structure OrderItem where
  name : Name
  direction : Option (Gap × Direction)

def OrderItem.phrase (i : OrderItem) : Phrase :=
  ⟨.name i.name, (i.direction.map fun d => [(.gap d.1, d.2.solid)]).getD []⟩

structure OrderClause where
  before : Gap
  order : Keyword "ORDER"
  gap : Gap
  by_ : Keyword "BY"
  after : Gap
  items : Listed OrderItem

def OrderClause.writing (c : OrderClause) : Writing :=
  (.gap c.before, .keyword (by decide) c.order) :: (.gap c.gap, .keyword (by decide) c.by_) ::
    c.items.after c.after OrderItem.phrase

structure LimitClause where
  before : Gap
  limit : Keyword "LIMIT"
  gap : Gap
  count : Digits

def LimitClause.writing (c : LimitClause) : Writing :=
  [(.gap c.before, .keyword (by decide) c.limit), (.gap c.gap, .integer false c.count)]

structure FlatSelect where
  select : Keyword "SELECT"
  gap : Gap
  columns : Listed Name
  before : Gap
  from_ : Keyword "FROM"
  after : Gap
  tables : Listed Table
  joins : List Join
  where_ : Option WhereClause
  group : Option GroupClause
  order : Option OrderClause
  limit : Option LimitClause

namespace FlatSelect

variable (q : FlatSelect)

def limitPart : Writing := (q.limit.map LimitClause.writing).getD []

def orderPart : Writing := (q.order.map OrderClause.writing).getD []

def groupPart : Writing := (q.group.map GroupClause.writing).getD []

def wherePart : Writing := (q.where_.map WhereClause.writing).getD []

def joinPart : Writing := q.joins.flatMap Join.writing

def ending : Writing := q.groupPart ++ (q.orderPart ++ q.limitPart)

def clauses : Writing := q.wherePart ++ q.ending

def tablePart : Writing := q.tables.after q.after Table.phrase

def fromPart : Writing :=
  (.gap q.before, .keyword (by decide) q.from_) :: (q.tablePart ++ (q.joinPart ++ q.clauses))

def columnPart : Writing := q.columns.after q.gap column

def phrase : Phrase := ⟨.keyword (by decide) q.select, q.columnPart ++ q.fromPart⟩

def render : Text := q.phrase.text

def facts : Facts where
  tables := q.tables.items.map Table.reference ++ q.joins.map fun j => j.table.reference
  columns := q.columns.items.map Name.text
  whereConditions := (q.where_.map fun c => c.comparisons.map fun x => x.phrase.text).getD []
  joinConditions := q.joins.filterMap Join.condition?
  orderItems := (q.order.map fun c => c.items.items.map fun i => i.phrase.text).getD []

end FlatSelect

namespace Phrase

variable {p : Phrase}

/-- No comma stands in the phrase. -/
def Gapped (p : Phrase) : Prop := Writing.Gapped p.tail

theorem text_after (p : Phrase) (b : Break) :
    Writing.text (p.after b) = b.text ++ p.text := Writing.text_cons _ _

theorem text_extend (p : Phrase) (t : Writing) : (p.extend t).text = p.text ++ t.text := by
  unfold text extend
  rw [Writing.text_append, List.append_assoc]

theorem words_text (gapped : p.Gapped) :
    Text.words p.text = p.head.text :: p.tail.map fun x => x.2.text :=
  Writing.words_text gapped p.head

theorem no_comma (gapped : p.Gapped) : ',' ∉ p.text := by
  intro h
  rcases List.mem_append.1 h with h | h
  · exact p.head.not_mem_text (by decide) (by decide) h
  · exact Writing.not_mem_text (.inr gapped) (by decide) (by decide) (by decide) h

end Phrase

theorem column_gapped (n : Name) : (column n).Gapped := List.forall_mem_nil _

theorem Alias.gapped (a : Alias) : Writing.Gapped a.writing := by
  obtain ⟨as_, gap, name⟩ := a
  cases as_ with
  | none => exact List.forall_mem_singleton.2 ⟨gap, rfl⟩
  | some k => exact List.forall_mem_cons.2 ⟨⟨k.1, rfl⟩, List.forall_mem_singleton.2 ⟨gap, rfl⟩⟩

theorem Table.gapped (t : Table) : t.phrase.Gapped := by
  obtain ⟨name, alias_⟩ := t
  cases alias_ with
  | none => exact List.forall_mem_nil _
  | some a => exact a.gapped

theorem Listed.text_later_cons {α : Type} (phrase : α → Phrase) (c : Comma) (a : α)
    (others : List (Comma × α)) :
    Writing.text (Listed.later phrase ((c, a) :: others)) =
      blankText c.before ++ ',' :: (blankText c.after ++
        ((phrase a).text ++ Writing.text (Listed.later phrase others))) := by
  unfold Listed.later
  rw [List.flatMap_cons, Writing.text_append, Phrase.text_after, Break.text, Comma.text]
  simp only [List.append_assoc, List.cons_append]

theorem WhereClause.text_later_cons (l : Link) (c : Comparison)
    (others : List (Link × Comparison)) :
    Writing.text (later ((l, c) :: others)) = l.before.text ++ (l.word.solid.text ++
      (l.after.text ++ (c.phrase.text ++ Writing.text (later others)))) := by
  unfold later
  rw [List.flatMap_cons, Writing.text_append, Writing.text_cons, Phrase.text_after]
  simp only [Break.text, List.append_assoc]

theorem Table.getLast?_words (t : Table) :
    (Text.words t.phrase.text).getLast? = some t.reference := by
  rw [Phrase.words_text t.gapped]
  obtain ⟨name, alias_⟩ := t
  cases alias_ with
  | none => rfl
  | some a =>
    obtain ⟨as_, gap, name'⟩ := a
    cases as_ <;> rfl

theorem Comparison.gapped (c : Comparison) : c.phrase.Gapped :=
  List.forall_mem_cons.2 ⟨⟨c.before, rfl⟩, List.forall_mem_singleton.2 ⟨c.after, rfl⟩⟩

theorem OrderItem.gapped (i : OrderItem) : i.phrase.Gapped := by
  obtain ⟨name, direction⟩ := i
  cases direction with
  | none => exact List.forall_mem_nil _
  | some d => exact List.forall_mem_singleton.2 ⟨d.1, rfl⟩

section Avoids

variable {ws : List Text}

namespace Phrase

/-- No word of the phrase is one of some keywords. -/
def Avoids (ws : List Text) (p : Phrase) : Prop := p.head.Avoids ws ∧ Writing.Avoids ws p.tail

theorem Avoids.clear {p : Pattern} {before : Option Char} {rest : Text} {phrase : Phrase}
    (h : phrase.Avoids ws) (starts : Pattern.Starts p ws) (known : ws ⊆ reservedWords)
    (after : Pattern.inWord rest.head? = false) : Pattern.Clear p before phrase.text rest :=
  (Solid.clear starts known h.1 (Writing.inWord_head _ after)).append
    (Writing.clear starts known h.2 after)

theorem Avoids.extend {p : Phrase} {t : Writing} (h : p.Avoids ws) (ht : Writing.Avoids ws t) :
    (p.extend t).Avoids ws := ⟨h.1, Writing.avoids_append.2 ⟨h.2, ht⟩⟩

theorem Avoids.after {p : Phrase} (h : p.Avoids ws) (b : Break) : Writing.Avoids ws (p.after b) :=
  Writing.avoids_cons.2 h

end Phrase

theorem column_avoids (n : Name) : (column n).Avoids ws := ⟨trivial, Writing.avoids_nil⟩

theorem Alias.avoids (a : Alias) (h : "AS".toList ∉ ws) : Writing.Avoids ws a.writing := by
  obtain ⟨as_, gap, name⟩ := a
  cases as_ with
  | none => exact Writing.avoids_cons.2 ⟨trivial, Writing.avoids_nil⟩
  | some k => exact Writing.avoids_cons.2 ⟨h, Writing.avoids_cons.2 ⟨trivial, Writing.avoids_nil⟩⟩

theorem Table.avoids (t : Table) (h : "AS".toList ∉ ws) : t.phrase.Avoids ws := by
  obtain ⟨name, alias_⟩ := t
  refine ⟨trivial, ?_⟩
  cases alias_ with
  | none => exact Writing.avoids_nil
  | some a => exact a.avoids h

theorem Operand.avoids (o : Operand) : o.solid.Avoids ws := by
  cases o <;> trivial

theorem Comparison.avoids (c : Comparison) : c.phrase.Avoids ws :=
  ⟨c.left.avoids, Writing.avoids_cons.2
    ⟨trivial, Writing.avoids_cons.2 ⟨c.right.avoids, Writing.avoids_nil⟩⟩⟩

theorem OrderItem.avoids (i : OrderItem) (asc : "ASC".toList ∉ ws) (desc : "DESC".toList ∉ ws) :
    i.phrase.Avoids ws := by
  obtain ⟨name, direction⟩ := i
  refine ⟨trivial, ?_⟩
  cases direction with
  | none => exact Writing.avoids_nil
  | some d =>
    obtain ⟨g, d⟩ := d
    cases d with
    | ascending k => exact Writing.avoids_cons.2 ⟨asc, Writing.avoids_nil⟩
    | descending k => exact Writing.avoids_cons.2 ⟨desc, Writing.avoids_nil⟩

theorem Listed.body_avoids {α : Type} {phrase : α → Phrase} (h : ∀ a, (phrase a).Avoids ws)
    (l : Listed α) : (l.body phrase).Avoids ws := by
  apply (h l.first).extend
  apply Writing.avoids_flatMap
  exact fun x => (h x.2).after _

theorem Listed.avoids {α : Type} {phrase : α → Phrase} (h : ∀ a, (phrase a).Avoids ws) (g : Gap)
    (l : Listed α) : Writing.Avoids ws (l.after g phrase) := (Listed.body_avoids h l).after _

theorem leading_avoids (lead : ∀ w ∈ joinLeads, w ∉ ws) (join : "JOIN".toList ∉ ws) (g : Gap)
    (leads : List LeadWord) (k : Keyword "JOIN") : Writing.Avoids ws (leading g leads k) := by
  induction leads generalizing g with
  | nil => exact Writing.avoids_cons.2 ⟨join, Writing.avoids_nil⟩
  | cons l leads ih => exact Writing.avoids_cons.2 ⟨lead l.word l.known, ih l.gap⟩

theorem WhereClause.body_avoids (c : WhereClause) (and : "AND".toList ∉ ws)
    (or : "OR".toList ∉ ws) : c.body.Avoids ws := by
  apply c.first.avoids.extend
  apply Writing.avoids_flatMap
  rintro ⟨l, d⟩
  apply Writing.avoids_cons.2
  refine ⟨?_, d.avoids.after _⟩
  cases l.word with
  | and k => exact and
  | or k => exact or

theorem OnClause.avoids (c : OnClause) (on : "ON".toList ∉ ws) : Writing.Avoids ws c.writing :=
  Writing.avoids_cons.2 ⟨on, c.predicate.avoids.after _⟩

def frontWords : List Text :=
  (["SELECT", "FROM", "AS", "ON", "JOIN"] : List String).map String.toList ++ joinLeads

theorem Join.avoids (j : Join) (other : ∀ w ∈ frontWords, w ∉ ws) :
    Writing.Avoids ws j.writing := by
  refine Writing.avoids_append.2 ⟨leading_avoids ?_ ?_ _ _ _, Writing.avoids_append.2 ⟨?_, ?_⟩⟩
  · exact fun w hw => other w (List.mem_append_right _ hw)
  · exact other _ (by decide)
  · exact (j.table.avoids (other _ (by decide))).after _
  · cases j.kind with
    | cross k gap => exact Writing.avoids_nil
    | on lead clause => exact clause.avoids (other _ (by decide))

def endingWords : List Text :=
  (["GROUP", "BY", "ORDER", "ASC", "DESC", "LIMIT"] : List String).map String.toList

def clauseWords : List Text :=
  (["WHERE", "AND", "OR"] : List String).map String.toList ++ endingWords

theorem WhereClause.avoids (c : WhereClause) (where_ : "WHERE".toList ∉ ws)
    (and : "AND".toList ∉ ws) (or : "OR".toList ∉ ws) : Writing.Avoids ws c.writing :=
  Writing.avoids_cons.2 ⟨where_, (c.body_avoids and or).after _⟩

theorem GroupClause.avoids (c : GroupClause) (group : "GROUP".toList ∉ ws)
    (by_ : "BY".toList ∉ ws) : Writing.Avoids ws c.writing :=
  Writing.avoids_cons.2 ⟨group, Writing.avoids_cons.2 ⟨by_, Writing.avoids_cons.2
    ⟨trivial, Writing.avoids_nil⟩⟩⟩

theorem OrderClause.avoids (c : OrderClause) (order : "ORDER".toList ∉ ws) (by_ : "BY".toList ∉ ws)
    (asc : "ASC".toList ∉ ws) (desc : "DESC".toList ∉ ws) : Writing.Avoids ws c.writing :=
  Writing.avoids_cons.2 ⟨order, Writing.avoids_cons.2
    ⟨by_, Listed.avoids (fun i => i.avoids asc desc) c.after c.items⟩⟩

theorem LimitClause.avoids (c : LimitClause) (limit : "LIMIT".toList ∉ ws) :
    Writing.Avoids ws c.writing :=
  Writing.avoids_cons.2 ⟨limit, Writing.avoids_cons.2 ⟨trivial, Writing.avoids_nil⟩⟩

theorem avoids_getD {α : Type} {write : α → Writing} (h : ∀ a, Writing.Avoids ws (write a))
    (o : Option α) : Writing.Avoids ws ((o.map write).getD []) := by
  cases o with
  | none => exact Writing.avoids_nil
  | some a => exact h a

namespace FlatSelect

variable (q : FlatSelect)

theorem ending_avoids (other : ∀ w ∈ endingWords, w ∉ ws) : Writing.Avoids ws q.ending := by
  refine Writing.avoids_append.2 ⟨avoids_getD (fun c => ?_) _,
    Writing.avoids_append.2 ⟨avoids_getD (fun c => ?_) _, avoids_getD (fun c => ?_) _⟩⟩
  · exact c.avoids (other _ (by decide)) (other _ (by decide))
  · exact c.avoids (other _ (by decide)) (other _ (by decide)) (other _ (by decide))
      (other _ (by decide))
  · exact c.avoids (other _ (by decide))

theorem clauses_avoid (other : ∀ w ∈ clauseWords, w ∉ ws) : Writing.Avoids ws q.clauses := by
  refine Writing.avoids_append.2 ⟨avoids_getD (fun c => ?_) _, q.ending_avoids ?_⟩
  · exact c.avoids (other _ (by decide)) (other _ (by decide)) (other _ (by decide))
  · exact fun w hw => other w (List.mem_append_right _ hw)

theorem joinPart_avoids (other : ∀ w ∈ frontWords, w ∉ ws) : Writing.Avoids ws q.joinPart := by
  apply Writing.avoids_flatMap
  exact fun j => j.avoids other

/-- The statement up to its joins. -/
def opening : Phrase :=
  ⟨.keyword (by decide) q.select,
    q.columnPart ++ (.gap q.before, .keyword (by decide) q.from_) :: q.tablePart⟩

theorem opening_avoids (select : "SELECT".toList ∉ ws) (from_ : "FROM".toList ∉ ws)
    (as_ : "AS".toList ∉ ws) : q.opening.Avoids ws := by
  refine ⟨select, Writing.avoids_append.2 ⟨?_, ?_⟩⟩
  · exact Listed.avoids column_avoids q.gap q.columns
  · exact Writing.avoids_cons.2 ⟨from_, Listed.avoids (fun t => t.avoids as_) q.after q.tables⟩

def front : Phrase := q.opening.extend q.joinPart

theorem front_avoids (other : ∀ w ∈ frontWords, w ∉ ws) : q.front.Avoids ws := by
  apply Phrase.Avoids.extend
  · exact q.opening_avoids (other _ (by decide)) (other _ (by decide)) (other _ (by decide))
  · exact q.joinPart_avoids other

theorem phrase_eq : q.phrase = q.front.extend q.clauses := by
  unfold phrase front opening fromPart Phrase.extend
  simp only [List.append_assoc, List.cons_append]

end FlatSelect

end Avoids

end SqlReview.Query
