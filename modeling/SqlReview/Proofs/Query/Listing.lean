import SqlReview.Proofs.Query.Flat
import SqlReview.Proofs.Query.Groups
import SqlReview.Proofs.Text.Terminator

/-!
The tables and columns of flat statements. The text that a list adds to its group goes on, after any
item, with commas and the items that these part.
-/
namespace SqlReview.Query

open Sql

section Lists

variable {s t text tail : Text} {refs more : List Text}

theorem references_append_comma (s t : Text) :
    references (s ++ ',' :: t) = references s ++ references t := by
  unfold references Text.pieces
  rw [Text.cut_append_mark (by rfl), List.filterMap_append]

theorem references_of_no_comma (h : ',' ∉ s) :
    references s = (Text.words s).getLast?.toList := by
  unfold references Text.pieces
  rw [Text.cut_of_no_mark (Text.ne_mark h)]
  cases e : (Text.words s).getLast? <;> simp [e]

theorem references_append_blank {blank : Text} (h : ∀ c ∈ blank, Text.isBlank c = true) (s : Text) :
    references (s ++ blank) = references s := by
  obtain ⟨front, last, _, parted⟩ := Text.exists_lastPiece (· == ',') s
  have whole := parted [] (List.forall_mem_nil _)
  have further := parted blank (Text.ne_mark (Text.not_mem_of_blank h (by decide)))
  rw [List.append_nil, List.append_nil] at whole
  simp only [references, Text.pieces, whole, further, List.filterMap_append, List.filterMap_cons,
    Text.words_append_of_blank h]

/-- What goes on after an item of a list, with the words that are its references. -/
def Lists (text : Text) (refs : List Text) : Prop :=
  ∀ s, ',' ∉ s → references (s ++ text) = (Text.words s).getLast?.toList ++ refs

theorem Lists.blank (blank : ∀ c ∈ text, Text.isBlank c = true) : Lists text [] := by
  intro s hs
  have none : ',' ∉ s ++ text := by
    rw [List.mem_append, not_or]
    exact ⟨hs, Text.not_mem_of_blank blank (by decide)⟩
  rw [references_of_no_comma none, Text.words_append_of_blank blank, List.append_nil]

theorem Lists.comma {before item : Text} (blank : ∀ c ∈ before, Text.isBlank c = true)
    (none : ',' ∉ item) (h : Lists tail more) :
    Lists (before ++ ',' :: (item ++ tail)) ((Text.words item).getLast?.toList ++ more) := by
  intro s hs
  have first := Lists.blank blank s hs
  rw [← List.append_assoc, references_append_comma, first, h item none, List.append_nil]

end Lists

section Later

variable {α : Type} {phrase : α → Phrase} {reference : α → Text} {tail : Text} {more : List Text}

theorem Lists.later (gapped : ∀ a, (phrase a).Gapped)
    (last : ∀ a, (Text.words (phrase a).text).getLast? = some (reference a))
    (h : Lists tail more) (others : List (Comma × α)) :
    Lists (Writing.text (Listed.later phrase others) ++ tail)
      (others.map (fun x => reference x.2) ++ more) := by
  induction others with
  | nil => exact h
  | cons x others ih =>
    obtain ⟨c, a⟩ := x
    have none : ',' ∉ blankText c.after ++ (phrase a).text := by
      rw [List.mem_append, not_or]
      exact ⟨not_mem_blankText (by decide) _, (phrase a).no_comma (gapped a)⟩
    have first := Lists.comma (isBlank_blankText c.before) none ih
    rw [Text.words_gap_append (isBlank_blankText c.after), last a] at first
    rw [Listed.text_later_cons, List.append_assoc, List.cons_append, List.append_assoc,
      List.append_assoc]
    rw [List.append_assoc] at first
    exact first

theorem references_listed (gapped : ∀ a, (phrase a).Gapped)
    (last : ∀ a, (Text.words (phrase a).text).getLast? = some (reference a))
    (h : Lists tail more) (g : Gap) (l : Listed α) :
    references (Writing.text (l.after g phrase) ++ tail) = l.items.map reference ++ more := by
  have none : ',' ∉ g.text ++ (phrase l.first).text := by
    rw [List.mem_append, not_or]
    exact ⟨not_mem_blankText (by decide) _, (phrase l.first).no_comma (gapped _)⟩
  have all := Lists.later gapped last h l.others _ none
  rw [Text.words_gap_append g.isBlank, last l.first] at all
  unfold Listed.after
  rw [Phrase.text_after, Listed.body, Phrase.text_extend, ← List.append_assoc, List.append_assoc]
  rw [Break.text, all, Listed.items, List.map_cons, List.map_map]
  rfl

end Later

section Tells

/-- Lexemes that add items to a list of tables, inside a join's predicate or outside. -/
def Tells (inside : Bool) (ls : List Lexeme) (refs : List Text) (inside' : Bool) : Prop :=
  ∃ text, Adds .from_ inside ls text inside' ∧
    ∀ tail more, Lists tail more → Lists (text ++ tail) (refs ++ more)

variable {inside inside' inside'' : Bool} {ls ms : List Lexeme} {refs more : List Text}
  {text tail : Text}

theorem Tells.nil : Tells inside [] [] inside := ⟨[], Adds.nil, fun _ _ h => h⟩

theorem Tells.append (first : Tells inside ls refs inside')
    (second : Tells inside' ms more inside'') :
    Tells inside (ls ++ ms) (refs ++ more) inside'' := by
  obtain ⟨text, adds, lists⟩ := first
  obtain ⟨text', adds', lists'⟩ := second
  refine ⟨text ++ text', adds.append adds', ?_⟩
  intro tail rest h
  rw [List.append_assoc, List.append_assoc]
  exact lists _ _ (lists' _ _ h)

theorem Lists.blank_append (blank : ∀ c ∈ text, Text.isBlank c = true) (h : Lists tail more) :
    Lists (text ++ tail) more := by
  intro s hs
  have none : ',' ∉ s ++ text := by
    rw [List.mem_append, not_or]
    exact ⟨hs, Text.not_mem_of_blank blank (by decide)⟩
  rw [← List.append_assoc, h _ none, Text.words_append_of_blank blank]

theorem Adds.gap (inside : Bool) (g : Gap) : ∃ text, (∀ c ∈ text, Text.isBlank c = true) ∧
    Adds .from_ inside (Break.gap g).lexemes text inside := by
  cases inside with
  | true => exact ⟨[], List.forall_mem_nil _, Adds.passing (passes_blanks (g.first :: g.others))⟩
  | false => exact ⟨g.text, g.isBlank, Adds.break_ (.gap g)⟩

theorem Tells.gap (inside : Bool) (g : Gap) : Tells inside (Break.gap g).lexemes [] inside := by
  obtain ⟨text, blank, adds⟩ := Adds.gap inside g
  exact ⟨text, adds, fun tail more h => h.blank_append blank⟩

theorem Tells.joinWord {w : Text} (known : w ∈ reservedWords) (k : Keyword w) (join : w ∈ joinWords)
    (inside : Bool) (g : Gap) {item : Text} (none : ',' ∉ item)
    (adds : Adds .from_ false ls item false) :
    Tells inside ((Break.gap g).lexemes ++ ([.word k.text] ++ ls))
      (Text.words item).getLast?.toList false := by
  obtain ⟨text, blank, gap⟩ := Adds.gap inside g
  refine ⟨_, gap.append ((Adds.joinWord known k join inside).append adds), ?_⟩
  intro tail more h
  have all : Lists (text ++ ',' :: (item ++ tail)) _ := Lists.comma blank none h
  rw [List.append_assoc]
  exact all

theorem joinWords_of_joinLeads : ∀ w ∈ joinLeads, w ∈ joinWords := by decide

theorem Table.isWord (t : Table) (b : Break) : ∀ x ∈ t.phrase.after b, IsWord x.2 := by
  obtain ⟨name, alias_⟩ := t
  cases alias_ with
  | none => exact List.forall_mem_singleton.2 trivial
  | some a =>
    obtain ⟨as_, gap, name'⟩ := a
    cases as_ with
    | none => exact List.forall_mem_cons.2 ⟨trivial, List.forall_mem_singleton.2 trivial⟩
    | some k =>
      exact List.forall_mem_cons.2 ⟨trivial, List.forall_mem_cons.2 ⟨trivial,
        List.forall_mem_singleton.2 trivial⟩⟩

theorem Tells.leading (inside : Bool) (before : Gap) (leads : List LeadWord) (k : Keyword "JOIN")
    (g : Gap) (t : Table) :
    Tells inside (Writing.lexemes (leading before leads k ++ t.phrase.after (.gap g)))
      [t.reference] false := by
  induction leads generalizing inside before with
  | nil =>
    have adds : Adds .from_ false (Writing.lexemes (t.phrase.after (.gap g))) _ false :=
      Adds.words (t.isWord (.gap g)) ((t.avoids (by decide)).after (.gap g))
    rw [Phrase.text_after] at adds
    have none : ',' ∉ (Break.gap g).text ++ t.phrase.text := by
      rw [List.mem_append, not_or]
      exact ⟨not_mem_blankText (by decide) _, t.phrase.no_comma t.gapped⟩
    have last : Text.words ((Break.gap g).text ++ t.phrase.text) = Text.words t.phrase.text :=
      Text.words_gap_append g.isBlank
    have all := Tells.joinWord (by decide) k (by decide) inside before none adds
    rw [last, t.getLast?_words] at all
    rw [Query.leading, List.singleton_append, Writing.lexemes_cons]
    exact all
  | cons l leads ih =>
    have lead := Tells.joinWord (reserved_of_joinLeads _ l.known) l.keyword
      (joinWords_of_joinLeads _ l.known) inside before (List.not_mem_nil (a := ',')) Adds.nil
    exact lead.append (ih false l.gap)

theorem Tells.onClause (c : OnClause) : Tells false (Writing.lexemes c.writing) [] true := by
  have predicate :
      Adds .from_ true (Writing.lexemes (c.predicate.phrase.after (.gap c.gap))) [] true := by
    apply Adds.predicate
    · exact List.forall_mem_cons.2 ⟨⟨c.gap, rfl⟩, c.predicate.gapped⟩
    · exact c.predicate.avoids.after (.gap c.gap)
  have on : Tells false ([.word c.on.text] ++
      Writing.lexemes (c.predicate.phrase.after (.gap c.gap))) [] true :=
    ⟨_, (Adds.on c.on false).append predicate, fun _ _ h => h⟩
  rw [OnClause.writing, Writing.lexemes_cons]
  exact (Tells.gap false c.before).append on

theorem Tells.join (inside : Bool) (j : Join) :
    ∃ inside', Tells inside (Writing.lexemes j.writing) [j.table.reference] inside' := by
  have first := Tells.leading inside j.before j.kind.leads j.join j.gap j.table
  unfold Join.writing Join.scope
  rw [← List.append_assoc, Writing.lexemes_append]
  cases j.kind.clause? with
  | none => exact ⟨false, first.append Tells.nil⟩
  | some c => exact ⟨true, first.append (Tells.onClause c)⟩

theorem Tells.joins (inside : Bool) (js : List Join) :
    ∃ inside', Tells inside (Writing.lexemes (js.flatMap Join.writing))
      (js.map fun j => j.table.reference) inside' := by
  induction js generalizing inside with
  | nil => exact ⟨inside, Tells.nil⟩
  | cons j js ih =>
    obtain ⟨between, first⟩ := Tells.join inside j
    obtain ⟨inside', rest⟩ := ih between
    rw [List.flatMap_cons, Writing.lexemes_append]
    exact ⟨inside', first.append rest⟩

end Tells

section Statement

theorem isWord_listed {α : Type} {phrase : α → Phrase}
    (h : ∀ a b, ∀ x ∈ (phrase a).after b, IsWord x.2) (g : Gap) (l : Listed α) :
    ∀ x ∈ l.after g phrase, IsWord x.2 := by
  intro x hx
  have hx : x ∈ (phrase l.first).after (.gap g) ++ Listed.later phrase l.others := hx
  rcases List.mem_append.1 hx with hx | hx
  · exact h _ _ x hx
  · obtain ⟨y, _, hx⟩ := List.mem_flatMap.1 hx
    exact h _ _ x hx

/-- Nothing is left, or a clause starts that ends a list of tables. -/
def Clauses (t : Writing) : Prop :=
  t = [] ∨ ∃ g w, ∃ known : w ∈ reservedWords, ∃ k : Keyword w, ∃ rest,
    t = (.gap g, .keyword known k) :: rest ∧ w ∈ clauseEnders

theorem collectGroup_clauses {t : Writing} (h : Clauses t) (leading inside : Bool) :
    ∃ text rest, collectGroup .from_ ⟨0, leading, inside⟩ ((Writing.lexemes t).map Lexeme.token) =
      (text, rest) ∧ (∀ c ∈ text, Text.isBlank c = true) ∧
      rest ⊆ (Writing.lexemes t).map Lexeme.token := by
  rcases h with rfl | ⟨g, w, known, k, t, rfl, ends⟩
  · exact ⟨[], [], rfl, List.forall_mem_nil _, List.nil_subset _⟩
  · obtain ⟨text, blank, adds⟩ := Adds.gap inside g
    rw [Writing.lexemes_cons, List.map_append]
    obtain ⟨leading', e⟩ := adds leading (((Solid.keyword known k).lexemes ++
      Writing.lexemes t).map Lexeme.token)
    have stop := collectGroup_end .from_ leading' inside (endsGroup_keyword known k ends)
      ((Writing.lexemes t).map Lexeme.token)
    refine ⟨text, _, e.trans ?_, blank, List.subset_append_right _ _⟩
    rw [Solid.lexemes, List.singleton_append, List.map_cons, stop, List.append_nil]

namespace FlatSelect

variable (q : FlatSelect)

theorem clauses_start : Clauses q.clauses := by
  obtain ⟨_, _, _, _, _, _, _, _, where_, group, order, limit⟩ := q
  cases where_ with
  | some c => exact .inr ⟨c.before, "WHERE", by decide, c.where_, _, rfl, by decide⟩
  | none =>
    cases group with
    | some c => exact .inr ⟨c.before, "GROUP", by decide, c.group, _, rfl, by decide⟩
    | none =>
      cases order with
      | some c => exact .inr ⟨c.before, "ORDER", by decide, c.order, _, rfl, by decide⟩
      | none =>
        cases limit with
        | some c => exact .inr ⟨c.before, "LIMIT", by decide, c.limit, _, rfl, by decide⟩
        | none => exact .inl rfl

theorem collectGroup_tables (leading : Bool) :
    ∃ text rest, collectGroup .from_ ⟨0, leading, false⟩
        ((Writing.lexemes (q.tablePart ++ (q.joinPart ++ q.clauses))).map Lexeme.token) =
      (text, rest) ∧ references text = q.facts.tables ∧ ∀ t ∈ rest, Quiet t := by
  have tables : Adds .from_ false (Writing.lexemes q.tablePart) _ false :=
    Adds.words (isWord_listed Table.isWord q.after q.tables)
      (Listed.avoids (fun t => t.avoids (by decide)) q.after q.tables)
  obtain ⟨inside, joined, joins, lists⟩ := Tells.joins false q.joins
  obtain ⟨between, e⟩ :=
    (tables.append joins) leading ((Writing.lexemes q.clauses).map Lexeme.token)
  obtain ⟨blanks, rest, e', blank, sub⟩ := collectGroup_clauses q.clauses_start between inside
  rw [e', List.append_assoc, ← List.map_append, List.append_assoc, ← joinPart,
    ← Writing.lexemes_append, ← Writing.lexemes_append] at e
  refine ⟨_, rest, e, ?_, ?_⟩
  · have all := references_listed Table.gapped Table.getLast?_words
      (lists blanks [] (Lists.blank blank)) q.after q.tables
    rw [List.append_nil] at all
    exact all
  · intro t ht
    obtain ⟨l, hl, rfl⟩ := List.mem_map.1 (sub ht)
    exact Quiet.writing (q.clauses_avoid (by decide)) l hl

theorem collectGroup_columns (leading : Bool) (ts : List Token) :
    ∃ text, collectGroup .select ⟨0, leading, false⟩
        ((Writing.lexemes q.columnPart ++ (Break.gap q.before).lexemes).map Lexeme.token ++
          (Lexeme.word q.from_.text).token :: ts) =
        (text, (Lexeme.word q.from_.text).token :: ts) ∧
      references text = q.facts.columns := by
  have columns : Adds .select false (Writing.lexemes q.columnPart) _ false :=
    Adds.words (isWord_listed (fun _ _ => List.forall_mem_singleton.2 trivial) q.gap q.columns)
      (Listed.avoids column_avoids q.gap q.columns)
  have gap : Adds .select false (Break.gap q.before).lexemes _ false := Adds.break_ (.gap q.before)
  obtain ⟨between, e⟩ := (columns.append gap) leading ((Lexeme.word q.from_.text).token :: ts)
  rw [collectGroup_end .select between false
    (endsGroup_keyword (by decide) q.from_ (by decide)) ts, List.append_nil] at e
  refine ⟨_, e, ?_⟩
  have last (n : Name) : (Text.words (column n).text).getLast? = some n.text := by
    rw [Phrase.words_text (column_gapped n)]
    rfl
  have all := references_listed column_gapped last (Lists.blank q.before.isBlank) q.gap q.columns
  rw [List.append_nil] at all
  exact all

theorem lexemes_render : lexemes q.render =
    .ok (.word q.select.text :: (Writing.lexemes q.columnPart ++ (Break.gap q.before).lexemes ++
      .word q.from_.text :: Writing.lexemes (q.tablePart ++ (q.joinPart ++ q.clauses)))) := by
  have closes : Closes [] := fun _ h => nomatch h
  have select : Reads q.select.text [.word q.select.text]
      (Writing.text (q.columnPart ++ q.fromPart) ++ []) :=
    (Solid.keyword (by decide) q.select).reads (Writing.closes _ closes)
  have all := select.append (Writing.reads (q.columnPart ++ q.fromPart) closes)
  unfold Reads at all
  rw [List.append_nil, Writing.lexemes_append, fromPart, Writing.lexemes_cons,
    ← List.append_assoc (Writing.lexemes q.columnPart)] at all
  refine all.trans ?_
  rw [lexemes]
  exact congrArg Except.ok (List.append_nil _)

theorem ofQuery_render : References.ofQuery q.render = ⟨q.facts.tables, q.facts.columns⟩ := by
  have select : (Lexeme.word q.select.text).token.isKeyword "SELECT" = true :=
    isKeyword_same (by decide) q.select
  have from_ : (Lexeme.word q.from_.text).token.isKeyword "FROM" = true :=
    isKeyword_same (by decide) q.from_
  have noSelect : (Lexeme.word q.from_.text).token.isKeyword "SELECT" = false :=
    isKeyword_other (by decide) q.from_ (by decide) (by decide)
  obtain ⟨tableText, rest, tables, tableRefs, quiet⟩ := q.collectGroup_tables true
  obtain ⟨columnText, columns, columnRefs⟩ := q.collectGroup_columns true
    ((Writing.lexemes (q.tablePart ++ (q.joinPart ++ q.clauses))).map Lexeme.token)
  have tail : References.ofTokensFrom 0 ((Lexeme.word q.from_.text).token ::
      (Writing.lexemes (q.tablePart ++ (q.joinPart ++ q.clauses))).map Lexeme.token) =
      ⟨q.facts.tables, []⟩ := by
    rw [References.ofTokensFrom, isPunctuation_word, isPunctuation_word, noSelect, from_]
    simp only [GroupState.start, tables, ofTokensFrom_quiet quiet, tableRefs, List.append_nil]
    rfl
  rw [ofQuery_of_lexemes q.lexemes_render, List.map_cons, List.map_append, List.map_cons,
    References.ofTokensFrom, isPunctuation_word, isPunctuation_word, select]
  simp only [GroupState.start, columns, tail, columnRefs, List.append_nil]
  rfl

end FlatSelect

end Statement

end SqlReview.Query
