import SqlReview.Proofs.Query.Clauses
import SqlReview.Proofs.Query.Listing

/-!
The joins of flat statements. A JOIN is found with the words before it, and the text after it tells
a condition if an ON comes before the next JOIN. With the lists and clauses this is all that a flat
statement says.
-/
namespace SqlReview.Query

open Sql
open Pattern (Clear inWord)

section Words

variable {ws : List Text} {p : Phrase} {t : Writing}

def leadsText (leads : List LeadWord) : Text :=
  leads.flatMap fun l => l.keyword.text ++ l.gap.text

theorem text_leading (g : Gap) (leads : List LeadWord) (k : Keyword "JOIN") :
    Writing.text (leading g leads k) = g.text ++ (leadsText leads ++ k.text) := by
  induction leads generalizing g with
  | nil =>
    rw [leading, Writing.text_cons]
    exact congrArg (g.text ++ ·) (List.append_nil k.text)
  | cons l leads ih =>
    rw [leading, Writing.text_cons, ih, leadsText, leadsText, List.flatMap_cons, List.append_assoc,
      List.append_assoc]
    rfl

theorem leads_leadsText (leads : List LeadWord) : Leads (leadsText leads) := by
  induction leads with
  | nil => exact .none
  | cons l leads ih => exact .lead l.known l.keyword l.gap.text_ne_nil l.gap.isBlank ih

theorem Writing.unnested (t : Writing) : Unnested (Writing.text t) :=
  ⟨Writing.not_mem_text (.inl (by decide)) (by decide) (by decide) (by decide),
    Writing.not_mem_text (.inl (by decide)) (by decide) (by decide) (by decide)⟩

theorem Phrase.unnested (p : Phrase) : Unnested p.text :=
  ⟨fun h => (List.mem_append.1 h).elim (p.head.not_mem_text (by decide) (by decide))
      (Writing.unnested p.tail).1,
    fun h => (List.mem_append.1 h).elim (p.head.not_mem_text (by decide) (by decide))
      (Writing.unnested p.tail).2⟩

theorem Writing.Avoids.neutral (h : t.Avoids ws) (known : ws ⊆ reservedWords) :
    Neutral ws t.text := ⟨Writing.unnested t, fun starts after => Writing.clear starts known h after⟩

theorem Phrase.Avoids.neutral (h : p.Avoids ws) (known : ws ⊆ reservedWords) :
    Neutral ws p.text := ⟨p.unnested, fun starts after => h.clear starts known after⟩

end Words

section Scope

variable {g : Gap} {p : Pattern} {t rest : Writing}

theorem Meets.ends (h : Meets p t) : Ends p t.text := by
  rcases h with rfl | ⟨g, s, rest, rfl, holds⟩
  · exact .blank (List.forall_mem_nil _)
  · rw [Writing.text_cons]
    exact .keyword g.text_ne_nil g.isBlank holds

theorem Meets.leading (leads : List LeadWord) (k : Keyword "JOIN") (t : Writing) :
    Meets predicateEnd (leading g leads k ++ t) := by
  have holds (before : Option Char) (alone : inWord before = false) :
      (predicateEnd before (leadsText leads ++ k.text ++ Writing.text t)).isSome := by
    apply Pattern.includes_oneOf (List.mem_cons_self ..)
    rw [joinKeyword_covers (leads_leadsText leads) k alone t.inWord_head_text]
    rfl
  have text := text_leading g leads k
  cases leads with
  | nil => exact .inr ⟨g, _, t, rfl, holds⟩
  | cons l leads =>
    refine .inr ⟨g, _, Query.leading l.gap leads k ++ t, rfl, ?_⟩
    intro before alone
    rw [Query.leading, Writing.text_cons] at text
    have text := List.append_cancel_left text
    rw [Writing.text_append, ← List.append_assoc, text]
    exact holds before alone

theorem Table.sealed (t : Table) : Sealed scopeWords t.phrase.text :=
  .of_neutral ((t.avoids (by decide)).neutral scopeWords_subset)

theorem ofScope?_on (t : Table) (c : OnClause) (meets : Meets predicateEnd rest) :
    JoinCondition.ofScope? (Writing.text (t.phrase.after (.gap g) ++ (c.writing ++ rest))) =
      some ⟨t.phrase.text, c.predicate.phrase.text⟩ := by
  have written : Writing.text (t.phrase.after (.gap g) ++ (c.writing ++ rest)) =
      g.text ++ (t.phrase.text ++ (c.before.text ++ (c.on.text ++
        (c.gap.text ++ (c.predicate.phrase.text ++ rest.text))))) := by
    rw [Writing.text_append, Writing.text_append, OnClause.writing, Writing.text_cons,
      Phrase.text_after, Phrase.text_after c.predicate.phrase]
    simp only [Break.text, Solid.text, List.append_assoc]
  have predicate : Sealed scopeWords c.predicate.phrase.text :=
    .of_neutral (c.predicate.avoids.neutral scopeWords_subset)
  rw [written]
  exact ofScope?_sealed_on c.on t.sealed t.phrase.tight predicate c.predicate.phrase.tight
    g.isBlank c.before.text_ne_nil c.before.isBlank c.gap.text_ne_nil c.gap.isBlank meets.ends

/-- A JOIN that stands before an ON keeps it from the join before. -/
theorem ofScope?_of_join (t : Table) (g' : Gap) (leads : List LeadWord) (k : Keyword "JOIN")
    (u : Writing) : JoinCondition.ofScope?
      (Writing.text (t.phrase.after (.gap g) ++ (leading g' leads k ++ u))) = none := by
  have part : Sealed scopeWords (Writing.text (t.phrase.after (.gap g))) := by
    rw [Phrase.text_after]
    exact t.sealed.blank_append g.isBlank
  rw [Writing.text_append, Writing.text_append, text_leading, List.append_assoc]
  exact ofScope?_sealed_join part g'.text_ne_nil g'.isBlank (leads_leadsText leads) k
    u.inWord_head_text

theorem ofScope?_of_avoids (t : Table) (avoids : Writing.Avoids ["ON"] rest) :
    JoinCondition.ofScope? (Writing.text (t.phrase.after (.gap g) ++ rest)) = none := by
  have all : Writing.Avoids ["ON"] (t.phrase.after (.gap g) ++ rest) :=
    Writing.avoids_append.2 ⟨(t.avoids (by decide)).after _, avoids⟩
  have none : JoinCondition.ofScope? (Writing.text _ ++ []) = none :=
    ofScope?_of_sealed (.of_neutral (Writing.Avoids.neutral all (by decide))) (List.forall_mem_nil _)
  rw [List.append_nil] at none
  exact none

end Scope

section Statement

variable {u : Writing}

/-- What may follow all joins: a clause that ends a predicate, and no word of a join. -/
structure AfterJoins (u : Writing) : Prop where
  meets : Meets predicateEnd u
  noJoin : Writing.Avoids joinKeywords u
  noOn : Writing.Avoids ["ON"] u

theorem Join.ofScope? (j : Join) (js : List Join) (later : AfterJoins u) :
    JoinCondition.ofScope? (Writing.text (j.scope ++ (js.flatMap Join.writing ++ u))) =
      j.condition? := by
  have meets : Meets predicateEnd (js.flatMap Join.writing ++ u) := by
    cases js with
    | nil => exact later.meets
    | cons j' js =>
      rw [List.flatMap_cons, Join.writing, List.append_assoc, List.append_assoc]
      exact Meets.leading _ _ _
  obtain ⟨before, kind, join, gap, table⟩ := j
  cases kind with
  | on lead clause =>
    change JoinCondition.ofScope? (Writing.text (table.phrase.after (.gap gap) ++ clause.writing ++
      (js.flatMap Join.writing ++ u))) = _
    rw [List.append_assoc]
    exact ofScope?_on table clause meets
  | cross k g =>
    change JoinCondition.ofScope? (Writing.text (table.phrase.after (.gap gap) ++ [] ++
      (js.flatMap Join.writing ++ u))) = none
    rw [List.append_nil]
    cases js with
    | nil => exact ofScope?_of_avoids table later.noOn
    | cons j' js =>
      rw [List.flatMap_cons, Join.writing, List.append_assoc, List.append_assoc]
      exact ofScope?_of_join table _ _ _ _

theorem Join.scope_avoids (j : Join) : Writing.Avoids joinKeywords j.scope := by
  refine Writing.avoids_append.2 ⟨(j.table.avoids (by decide)).after _, ?_⟩
  cases j.kind with
  | cross k gap => exact Writing.avoids_nil
  | on lead clause => exact clause.avoids (by decide)

/-- Each join is found once, in order, and tells its own condition. -/
theorem filterMap_joins (seen : Text) (js : List Join) (later : AfterJoins u) :
    ((joinKeyword.occurrencesFrom seen 0 (Writing.text (js.flatMap Join.writing ++ u))).filterMap
        fun found => JoinCondition.ofScope? (withinEnclosing 0 found.after)) =
      js.filterMap Join.condition? := by
  induction js generalizing seen with
  | nil =>
    have clear : Clear joinKeyword seen.head? (Writing.text u) [] :=
      Writing.clear starts_joinKeyword (by decide) later.noJoin rfl
    have all := Pattern.occurrencesFrom_clear clear
    rw [List.append_nil] at all
    rw [List.flatMap_nil, List.nil_append, all]
    rfl
  | cons j js ih =>
    -- a gap to pass over, a JOIN that is covered, and a scope without any other
    have written : Writing.text ((j :: js).flatMap Join.writing ++ u) =
        j.before.text ++ ((leadsText j.kind.leads ++ j.join.text) ++
          (Writing.text j.scope ++ Writing.text (js.flatMap Join.writing ++ u))) := by
      rw [List.flatMap_cons, List.append_assoc, Join.writing, List.append_assoc,
        Writing.text_append, text_leading, Writing.text_append, List.append_assoc]
    have after : inWord (Writing.text j.scope ++
        Writing.text (js.flatMap Join.writing ++ u)).head? = false :=
      Writing.inWord_head _ (Writing.inWord_head_text _)
    have alone : inWord (j.before.text.reverse ++ seen).head? = false := by
      rw [← Pattern.charBefore_reverse]
      exact j.before.inWord_charBefore []
    have filled : leadsText j.kind.leads ++ j.join.text ≠ [] :=
      List.append_ne_nil_of_right_ne_nil _ (j.join.filled (by decide))
    have scope {before : Option Char} : Clear joinKeyword before (Writing.text j.scope)
        (Writing.text (js.flatMap Join.writing ++ u)) :=
      Writing.clear starts_joinKeyword (by decide) j.scope_avoids (Writing.inWord_head_text _)
    have flat : withinEnclosing 0 (Writing.text (j.scope ++ (js.flatMap Join.writing ++ u)) ++ []) =
        _ := (Writing.unnested _).balanced.withinEnclosing_append (.inl rfl)
    rw [List.append_nil] at flat
    rw [written, Pattern.occurrencesFrom_clear (j.before.clear starts_joinKeyword),
      Pattern.occurrencesFrom_covered filled
        (joinKeyword_covers (leads_leadsText _) _ alone after),
      Pattern.occurrencesFrom_clear scope, List.filterMap_cons, ih, ← Writing.text_append, flat,
      j.ofScope? js later, List.filterMap_cons]

theorem afterJoins_clauses (q : FlatSelect) : AfterJoins q.clauses where
  meets := by
    have ending : Meets predicateEnd q.ending := by
      apply q.meets_ending
      · exact Pattern.includes_oneOf (by simp)
      · exact Pattern.includes_oneOf (by simp)
      · exact Pattern.includes_oneOf (by simp)
    exact ending.getD_append (fun c => c.meets _ (Pattern.includes_oneOf (by simp))) q.where_
  noJoin := q.clauses_avoid (by decide)
  noOn := q.clauses_avoid (by decide)

theorem FlatSelect.joinConditions_render (q : FlatSelect) :
    joinConditions q.render = q.facts.joinConditions := by
  have avoids : q.opening.Avoids joinKeywords :=
    q.opening_avoids (by decide) (by decide) (by decide)
  have written : q.render =
      q.opening.text ++ Writing.text (q.joins.flatMap Join.writing ++ q.clauses) := by
    rw [render, phrase_eq, front, Phrase.text_extend, Phrase.text_extend, Writing.text_append,
      List.append_assoc]
    rfl
  have clear : Clear joinKeyword none q.opening.text
      (Writing.text (q.joins.flatMap Join.writing ++ q.clauses)) :=
    avoids.clear starts_joinKeyword (by decide) (Writing.inWord_head_text _)
  unfold joinConditions Pattern.occurrences
  rw [written, Pattern.occurrencesFrom_clear clear]
  exact filterMap_joins _ q.joins (afterJoins_clauses q)

/-- All that a flat statement says is read off its text. -/
theorem FlatSelect.extract_render (q : FlatSelect) : Facts.extract q.render = q.facts := by
  unfold Facts.extract
  rw [q.ofQuery_render, q.conditions_render, q.joinConditions_render, q.orderItems_render]

def overdue : FlatSelect :=
  let space : Gap := ⟨.space, []⟩
  let a : Name := ⟨"a", by decide, List.all_eq_true.1 rfl, fun c h => by cases h; rfl, rfl⟩
  let b : Name := ⟨"b", by decide, List.all_eq_true.1 rfl, fun c h => by cases h; rfl, rfl⟩
  let t : Name := ⟨"t", by decide, List.all_eq_true.1 rfl, fun c h => by cases h; rfl, rfl⟩
  let u : Name := ⟨"u", by decide, List.all_eq_true.1 rfl, fun c h => by cases h; rfl, rfl⟩
  let v : Name := ⟨"v", by decide, List.all_eq_true.1 rfl, fun c h => by cases h; rfl, rfl⟩
  let twelve : Digits := ⟨"12", by decide, List.all_eq_true.1 rfl⟩
  let comma : Comma := ⟨[], [.space]⟩
  let on_ : OnClause :=
    ⟨space, ⟨"On", rfl⟩, space, ⟨.qualified v a, space, .equal, space, .qualified u b⟩⟩
  let left : Lead := .outer (.left ⟨"left", rfl⟩) space ⟨"OUTER", rfl⟩ space
  let joins : List Join := [⟨space, .on left on_, ⟨"Join", rfl⟩, space, ⟨u, none⟩⟩,
    ⟨space, .cross ⟨"cross", rfl⟩ space, ⟨"Join", rfl⟩, space, ⟨b, none⟩⟩]
  let where_ : WhereClause :=
    ⟨space, ⟨"Where", rfl⟩, space, ⟨.name a, space, .greaterEqual, space, .integer true twelve⟩,
      [(⟨space, .or ⟨"or", rfl⟩, space⟩, ⟨.name b, space, .unequal, space, .name v⟩)]⟩
  let order : OrderClause := ⟨space, ⟨"ORDER", rfl⟩, space, ⟨"by", rfl⟩, space,
    ⟨b, some (space, .descending ⟨"Desc", rfl⟩)⟩, [(comma, ⟨a, none⟩)]⟩
  { select := ⟨"SELECT", rfl⟩
    gap := space
    columns := ⟨a, [(comma, b)]⟩
    before := ⟨.newline, [.space]⟩
    from_ := ⟨"FROM", rfl⟩
    after := space
    tables := ⟨⟨t, some ⟨some (space, ⟨"as", rfl⟩), space, v⟩⟩, []⟩
    joins
    where_ := some where_
    group := some ⟨space, ⟨"group", rfl⟩, space, ⟨"by", rfl⟩, space, a⟩
    order := some order
    limit := some ⟨space, ⟨"limit", rfl⟩, space, twelve⟩ }

theorem FlatSelect.extract_overdue :
    Facts.extract ("SELECT a, b\n FROM t as v left OUTER Join u On v.a = u.b cross Join b" ++
        " Where a >= -12 or b <> v group by a ORDER by b Desc, a limit 12") =
      { tables := ["v", "u", "b"]
        columns := ["a", "b"]
        whereConditions := ["a >= -12", "b <> v"]
        joinConditions := [⟨"u", "v.a = u.b"⟩]
        orderItems := ["b Desc", "a"] } :=
  overdue.extract_render

end Statement

end SqlReview.Query
