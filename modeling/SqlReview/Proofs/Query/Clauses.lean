import Mathlib.Data.List.Basic
import SqlReview.Proofs.Query.Flat

/-!
The conditions and the order of flat statements. A clause is found by its keywords, since nothing
before it is one of them, and ends where the next one starts.
-/
namespace SqlReview.Query

open Sql
open Pattern (Starts Clear charBefore inWord)

section Border

variable {p : Pattern} {ws : List Text} {t u : Writing} {g : Gap}

theorem first?_after {part found rest : Text} (starts : Starts p ws)
    (clear : ∀ {rest}, inWord rest.head? = false → Clear p none part rest) (filled : found ≠ [])
    (covers : ∀ before, inWord before = false → p before (found ++ rest) = some found.length) :
    p.first? (part ++ (g.text ++ (found ++ rest))) = some ⟨part ++ g.text, found, rest⟩ := by
  have clear : Clear p none (part ++ g.text) (found ++ rest) :=
    (clear (g.inWord_head _)).append (g.clear starts)
  rw [← List.append_assoc]
  exact Pattern.first?_of_covered clear filled (covers _ (g.inWord_charBefore _))

/-- Nothing is left, or a place comes after a gap that the pattern covers. -/
def Meets (p : Pattern) (t : Writing) : Prop :=
  t = [] ∨ ∃ g s rest, t = (.gap g, s) :: rest ∧
    ∀ before, inWord before = false → (p before (s.text ++ Writing.text rest)).isSome

theorem upTo_writing (starts : Starts p ws) (known : ws ⊆ reservedWords)
    (avoids : Writing.Avoids ws t) (meets : Meets p u) :
    ∃ gap, (∀ c ∈ gap, Text.isBlank c = true) ∧
      upTo p (Writing.text t ++ Writing.text u) = Writing.text t ++ gap := by
  rcases meets with rfl | ⟨g, s, rest, rfl, holds⟩
  · have none : p.first? (Writing.text t) = none :=
      Pattern.first?_of_clear (Writing.clear starts known avoids rfl)
    refine ⟨[], List.forall_mem_nil _, ?_⟩
    change upTo p (Writing.text t ++ []) = _
    unfold upTo
    rw [List.append_nil, none]
  · have clear : Clear p none (Writing.text t ++ g.text) (s.text ++ Writing.text rest) :=
      (Writing.clear starts known avoids (g.inWord_head _)).append
        (g.clear starts)
    have apart : inWord (charBefore none (Writing.text t ++ g.text)) = false :=
      g.inWord_charBefore _
    have here := holds _ apart
    obtain ⟨n, hn⟩ := Option.isSome_iff_exists.1 here
    obtain ⟨m, rfl⟩ := Nat.exists_eq_succ_of_ne_zero (Nat.ne_of_gt (starts _ _ _ hn).1)
    have filled : s.text ++ Writing.text rest ≠ [] :=
      fun h => s.text_ne_nil (List.append_eq_nil_iff.1 h).1
    -- how far the pattern reaches from there does not matter
    obtain ⟨found, after, first⟩ := Pattern.first?_of_holds clear filled hn
    refine ⟨g.text, g.isBlank, ?_⟩
    rw [Writing.text_cons, ← List.append_assoc]
    change upTo p (Writing.text t ++ g.text ++ (s.text ++ Writing.text rest)) = _
    unfold upTo
    rw [first]

theorem upTo_body (g : Gap) {body : Phrase} (starts : Starts p ws)
    (known : ws ⊆ reservedWords) (avoids : body.Avoids ws) (meets : Meets p u) :
    ∃ gap, (∀ c ∈ gap, Text.isBlank c = true) ∧
      upTo p (g.text ++ (body.text ++ Writing.text u)) = g.text ++ (body.text ++ gap) := by
  obtain ⟨gap, blank, e⟩ := upTo_writing starts known (avoids.after (.gap g)) meets
  rw [Phrase.text_after, List.append_assoc, List.append_assoc] at e
  exact ⟨gap, blank, e⟩

/-- A part that may be missing, before one that starts where the pattern holds. -/
theorem Meets.getD_append {α : Type} {write : α → Writing} (later : Meets p u)
    (h : ∀ a, Meets p (write a ++ u)) (o : Option α) : Meets p ((o.map write).getD [] ++ u) := by
  cases o with
  | none => exact later
  | some a => exact h a

section Keywords

variable {w w' : Text} {known : w ∈ reservedWords} {known' : w' ∈ reservedWords} {k : Keyword w}
  {k' : Keyword w'} {g' : Gap}

theorem Meets.word (more : p.Includes (Pattern.word w))
    (t : Writing) : Meets p ((.gap g, .keyword known k) :: t) := by
  refine .inr ⟨g, .keyword known k, t, rfl, fun before alone => more _ _ ?_⟩
  change (Pattern.word w before (k.text ++ _)).isSome
  rw [k.word_covers known alone t.inWord_head_text]
  rfl

theorem Meets.phrase (more : p.Includes (Pattern.phrase w w')) (t : Writing) :
    Meets p ((.gap g, .keyword known k) :: (.gap g', .keyword known' k') :: t) := by
  refine .inr ⟨g, .keyword known k, _, rfl, fun before alone => more _ _ ?_⟩
  rw [Writing.text_cons]
  change (Pattern.phrase w w' before (k.text ++ (g'.text ++ (k'.text ++ _)))).isSome
  rw [k.phrase_covers known known' g'.text_ne_nil g'.isBlank k' alone t.inWord_head_text]
  rfl

theorem WhereClause.meets (c : WhereClause) (u : Writing)
    (more : p.Includes (Pattern.word "WHERE")) : Meets p (c.writing ++ u) := Meets.word more _

theorem GroupClause.meets (c : GroupClause) (u : Writing)
    (more : p.Includes (Pattern.phrase "GROUP" "BY")) : Meets p (c.writing ++ u) :=
  Meets.phrase more _

theorem OrderClause.meets (c : OrderClause) (u : Writing)
    (more : p.Includes (Pattern.phrase "ORDER" "BY")) : Meets p (c.writing ++ u) :=
  Meets.phrase more _

theorem LimitClause.meets (c : LimitClause) (u : Writing)
    (more : p.Includes (Pattern.word "LIMIT")) : Meets p (c.writing ++ u) := Meets.word more _

end Keywords

end Border

section Pieces

variable {s lead : Text} {p : Phrase} {t : Writing}

theorem tight_append {s : Text} (filled : s ≠ []) (tight : Text.Tight s) (t : Writing) :
    Text.Tight (s ++ Writing.text t) := by
  induction t generalizing s with
  | nil =>
    change Text.Tight (s ++ [])
    rw [List.append_nil]
    exact tight
  | cons x t ih =>
    rw [Writing.text_cons, ← List.append_assoc, ← List.append_assoc]
    apply ih
    · exact List.append_ne_nil_of_right_ne_nil _ x.2.text_ne_nil
    · constructor
      · cases s with
        | nil => exact absurd rfl filled
        | cons c s => exact tight.1
      · rw [List.getLast?_append_of_ne_nil _ x.2.text_ne_nil]
        exact (Text.tight_of_solid x.2.not_isBlank).2

theorem Phrase.tight (p : Phrase) : Text.Tight p.text :=
  tight_append p.head.text_ne_nil (Text.tight_of_solid p.head.not_isBlank) p.tail

theorem Phrase.text_ne_nil (p : Phrase) : p.text ≠ [] :=
  List.append_ne_nil_of_left_ne_nil p.head.text_ne_nil _

theorem trimmedPieces_append (ps qs : List Text) :
    trimmedPieces (ps ++ qs) = trimmedPieces ps ++ trimmedPieces qs := by
  unfold trimmedPieces
  rw [List.map_append, List.filter_append]

theorem trimmedPieces_phrase {left right : Text} (hl : ∀ c ∈ left, Text.isBlank c = true)
    (hr : ∀ c ∈ right, Text.isBlank c = true) (p : Phrase) :
    trimmedPieces [left ++ (p.text ++ right)] = [p.text] := by
  have filled : (!p.text.isEmpty) = true := by
    rw [Bool.not_eq_true', List.isEmpty_eq_false_iff]
    exact p.text_ne_nil
  unfold trimmedPieces
  rw [List.map_singleton, Text.trim_padded hl p.tight hr, List.filter_cons, if_pos filled]
  rfl

end Pieces

section Conditions

def connectives : List Text := (["AND", "OR"] : List String).map String.toList

theorem starts_connector : Starts connector connectives := by
  apply Pattern.starts_oneOf
  intro p hp
  simp only [List.mem_cons, List.not_mem_nil, or_false] at hp
  rcases hp with rfl | rfl
  · exact (starts_keyword (by decide)).mono (by decide)
  · exact (starts_keyword (by decide)).mono (by decide)

theorem Connective.covers (c : Connective) {before : Option Char} {rest : Text}
    (alone : inWord before = false) (after : inWord rest.head? = false) :
    connector before (c.solid.text ++ rest) = some c.solid.text.length := by
  have and_ : "AND".toList ∈ reservedWords := by decide
  have or_ : "OR".toList ∈ reservedWords := by decide
  cases c with
  | and k => exact Pattern.oneOf_of_some (Pattern.word_covers alone (k.isSpelling and_) after)
  | or k =>
    have other : Pattern.word "AND" before (k.text ++ rest) = none := by
      apply (Pattern.starts_word (capitals_of_reserved _ and_)).eq_none_of_run
      · exact isWord_of_plain (k.plain or_)
      · intro w hw
        obtain rfl := List.mem_singleton.1 hw
        exact k.not_isSpelling or_ and_ (by decide)
      · exact after
    exact (Pattern.oneOf_of_none other).trans
      (Pattern.oneOf_of_some (Pattern.word_covers alone (k.isSpelling or_) after))

theorem trimmedPieces_split (c : Comparison) (others : List (Link × Comparison))
    (before : Option Char) {piece : Text} (blank : ∀ x ∈ piece.reverse, Text.isBlank x = true) :
    trimmedPieces (connector.splitFrom before piece 0
        (c.phrase.text ++ Writing.text (WhereClause.later others))) =
      c.phrase.text :: others.map fun x => x.2.phrase.text := by
  have known : connectives ⊆ reservedWords := by decide
  induction others generalizing c before piece with
  | nil =>
    have clear : Clear connector before c.phrase.text [] :=
      c.avoids.clear starts_connector known rfl
    have one := trimmedPieces_phrase blank (List.forall_mem_nil _) c.phrase
    change trimmedPieces (connector.splitFrom before piece 0 (c.phrase.text ++ [])) = _
    rw [Pattern.splitFrom_clear clear, Pattern.splitFrom, List.reverse_append, List.reverse_reverse]
    rw [List.append_nil] at one
    exact one
  | cons x others ih =>
    obtain ⟨l, d⟩ := x
    have clear : Clear connector before (c.phrase.text ++ l.before.text) (l.word.solid.text ++
        (l.after.text ++ (d.phrase.text ++ Writing.text (WhereClause.later others)))) :=
      (c.avoids.clear starts_connector known (l.before.inWord_head _)).append
        (l.before.clear starts_connector)
    have covers : connector (charBefore before (c.phrase.text ++ l.before.text))
        (l.word.solid.text ++ (l.after.text ++
          (d.phrase.text ++ Writing.text (WhereClause.later others)))) = some _ :=
      l.word.covers (l.before.inWord_charBefore c.phrase.text) (l.after.inWord_head _)
    have between {last : Option Char} : Clear connector last l.after.text
        (d.phrase.text ++ Writing.text (WhereClause.later others)) :=
      l.after.clear starts_connector
    have one := trimmedPieces_phrase blank l.before.isBlank c.phrase
    have gap : ∀ x ∈ (l.after.text.reverse ++ []).reverse, Text.isBlank x = true := by
      rw [List.append_nil, List.reverse_reverse]
      exact l.after.isBlank
    -- the comparison before the link is one piece, with the blanks that were left to it
    rw [WhereClause.text_later_cons, ← List.append_assoc, Pattern.splitFrom_clear clear,
      Pattern.splitFrom_covered l.word.solid.text_ne_nil covers, Pattern.splitFrom_clear between,
      List.reverse_append, List.reverse_reverse, ← List.singleton_append, trimmedPieces_append,
      one, ih d _ gap]
    rfl

def conditionEndWords : List Text := (["GROUP", "ORDER", "LIMIT"] : List String).map String.toList

theorem starts_conditionEnd : Starts conditionEnd conditionEndWords := by
  apply Pattern.starts_oneOf
  intro p hp
  simp only [List.mem_cons, List.not_mem_nil, or_false] at hp
  rcases hp with rfl | rfl | rfl
  · exact (starts_keywords (by decide) "BY").mono (by decide)
  · exact (starts_keywords (by decide) "BY").mono (by decide)
  · exact (starts_keyword (by decide)).mono (by decide)

end Conditions

section Pieces

variable {α : Type} {phrase : α → Phrase} {left right : Text}

theorem trimmedPieces_listed (gapped : ∀ a, (phrase a).Gapped)
    (hl : ∀ c ∈ left, Text.isBlank c = true) (hr : ∀ c ∈ right, Text.isBlank c = true) (a : α)
    (others : List (Comma × α)) :
    trimmedPieces (Text.pieces ',' (left ++ ((phrase a).text ++
        (Writing.text (Listed.later phrase others) ++ right)))) =
      (phrase a).text :: others.map fun x => (phrase x.2).text := by
  have piece {left right : Text} (hl : ∀ c ∈ left, Text.isBlank c = true)
      (hr : ∀ c ∈ right, Text.isBlank c = true) (a : α) :
      Text.pieces ',' (left ++ ((phrase a).text ++ right)) =
        [left ++ ((phrase a).text ++ right)] := by
    apply Text.cut_of_no_mark
    apply Text.ne_mark
    rw [List.mem_append, List.mem_append, not_or, not_or]
    exact ⟨Text.not_mem_of_blank hl (by decide), (phrase a).no_comma (gapped a),
      Text.not_mem_of_blank hr (by decide)⟩
  induction others generalizing a left with
  | nil =>
    change trimmedPieces (Text.pieces ',' (left ++ ((phrase a).text ++ right))) = _
    rw [piece hl hr, trimmedPieces_phrase hl hr]
    rfl
  | cons x others ih =>
    obtain ⟨c, b⟩ := x
    have written : left ++ ((phrase a).text ++
        (Writing.text (Listed.later phrase ((c, b) :: others)) ++ right)) =
        left ++ ((phrase a).text ++ blankText c.before) ++ ',' :: (blankText c.after ++
          ((phrase b).text ++ (Writing.text (Listed.later phrase others) ++ right))) := by
      simp only [Listed.text_later_cons, List.append_assoc, List.cons_append]
    have cut : Text.pieces ',' (left ++ ((phrase a).text ++ blankText c.before)) = [_] :=
      piece hl (isBlank_blankText _) a
    unfold Text.pieces at cut ih
    rw [written, Text.pieces, Text.cut_append_mark (by rfl), cut, trimmedPieces_append,
      trimmedPieces_phrase hl (isBlank_blankText _), ih (isBlank_blankText _) b]
    rfl

end Pieces

namespace FlatSelect

variable (q : FlatSelect) {ws : List Text}

theorem meets_limitPart {p : Pattern}
    (more : p.Includes (Pattern.word "LIMIT")) : Meets p q.limitPart := by
  have limits : Meets p (q.limitPart ++ []) :=
    Meets.getD_append (.inl rfl) (fun c => LimitClause.meets c [] more) q.limit
  rw [List.append_nil] at limits
  exact limits

theorem meets_ending {p : Pattern} (group : p.Includes (Pattern.phrase "GROUP" "BY"))
    (order : p.Includes (Pattern.phrase "ORDER" "BY")) (limit : p.Includes (Pattern.word "LIMIT")) :
    Meets p q.ending := by
  have orders : Meets p (q.orderPart ++ q.limitPart) :=
    (q.meets_limitPart limit).getD_append (fun c => OrderClause.meets c _ order) q.order
  exact orders.getD_append (fun c => GroupClause.meets c _ group) q.group

theorem meets_conditionEnd : Meets conditionEnd q.ending := by
  apply q.meets_ending
  · exact Pattern.includes_oneOf (by simp)
  · exact Pattern.includes_oneOf (by simp)
  · exact Pattern.includes_oneOf (by simp)

theorem render_front : q.render =
    q.front.text ++ (Writing.text q.wherePart ++ Writing.text q.ending) := by
  rw [render, phrase_eq, Phrase.text_extend, clauses, Writing.text_append]

theorem whereClause?_of_none (h : q.where_ = none) : whereClause? q.render = none := by
  have starts : Starts (Pattern.word "WHERE") ["WHERE"] := starts_keyword (by decide)
  have avoids : (q.front.extend q.ending).Avoids ["WHERE"] :=
    (q.front_avoids (by decide)).extend (q.ending_avoids (by decide))
  have text : q.render = (q.front.extend q.ending).text := by
    rw [render_front, wherePart, h, Phrase.text_extend]
    rfl
  unfold whereClause?
  rw [text, Pattern.first?_of_clear (avoids.clear starts (by decide) rfl)]
  rfl

theorem whereClause?_of_some {c : WhereClause} (h : q.where_ = some c) :
    ∃ gap, (∀ x ∈ gap, Text.isBlank x = true) ∧
      whereClause? q.render = some (c.gap.text ++ (c.body.text ++ gap)) := by
  have starts : Starts (Pattern.word "WHERE") ["WHERE"] := starts_keyword (by decide)
  obtain ⟨gap, blank, e⟩ := upTo_body c.gap starts_conditionEnd (by decide)
    (c.body_avoids (by decide) (by decide)) q.meets_conditionEnd
  have text : q.render = q.front.text ++ (c.before.text ++ (c.where_.text ++
      (c.gap.text ++ (c.body.text ++ Writing.text q.ending)))) := by
    rw [render_front, wherePart, h, Option.map_some, Option.getD_some, WhereClause.writing,
      Writing.text_cons, Phrase.text_after]
    simp only [Break.text, Solid.text, List.append_assoc]
  have covers : ∀ before, inWord before = false → Pattern.word "WHERE" before (c.where_.text ++
      (c.gap.text ++ (c.body.text ++ Writing.text q.ending))) = some c.where_.text.length :=
    fun before alone => c.where_.word_covers (by decide) alone (c.gap.inWord_head _)
  refine ⟨gap, blank, ?_⟩
  unfold whereClause?
  rw [text, first?_after starts ((q.front_avoids (by decide)).clear starts (by decide))
    (c.where_.filled (by decide)) covers]
  exact congrArg some e

theorem conditions_render : conditions q.render = q.facts.whereConditions := by
  unfold conditions facts
  cases h : q.where_ with
  | none =>
    rw [q.whereClause?_of_none h]
    rfl
  | some c =>
    obtain ⟨gap, blank, e⟩ := q.whereClause?_of_some h
    rw [e]
    simp only
    rw [Text.trim_padded c.gap.isBlank c.body.tight blank, WhereClause.body, Phrase.text_extend]
    refine (trimmedPieces_split c.first c.others none (List.forall_mem_nil _)).trans ?_
    rw [Option.map_some, Option.getD_some, WhereClause.comparisons, List.map_cons, List.map_map]
    rfl

def unordered : Phrase := q.front.extend (q.wherePart ++ q.groupPart)

theorem unordered_avoids : q.unordered.Avoids ["ORDER"] := by
  apply (q.front_avoids (by decide)).extend
  apply Writing.avoids_append.2
  constructor
  · exact avoids_getD (fun c => c.avoids (by decide) (by decide) (by decide)) _
  · exact avoids_getD (fun c => c.avoids (by decide) (by decide)) _

theorem render_unordered : q.render =
    q.unordered.text ++ (Writing.text q.orderPart ++ Writing.text q.limitPart) := by
  rw [render_front, ending, unordered, Phrase.text_extend]
  simp only [Writing.text_append, List.append_assoc]

theorem orderClause?_of_none (h : q.order = none) : orderClause? q.render = none := by
  have starts : Starts (Pattern.phrase "ORDER" "BY") ["ORDER"] := starts_keywords (by decide) "BY"
  have limit : Writing.Avoids ["ORDER"] q.limitPart :=
    avoids_getD (fun c => c.avoids (by decide)) _
  have avoids : (q.unordered.extend q.limitPart).Avoids ["ORDER"] := q.unordered_avoids.extend limit
  have text : q.render = (q.unordered.extend q.limitPart).text := by
    rw [render_unordered, orderPart, h, Phrase.text_extend]
    rfl
  unfold orderClause?
  rw [text, Pattern.first?_of_clear (avoids.clear starts (by decide) rfl)]
  rfl

theorem orderClause?_of_some {c : OrderClause} (h : q.order = some c) :
    ∃ gap, (∀ x ∈ gap, Text.isBlank x = true) ∧
      orderClause? q.render =
        some (c.after.text ++ ((c.items.body OrderItem.phrase).text ++ gap)) := by
  have starts : Starts (Pattern.phrase "ORDER" "BY") ["ORDER"] := starts_keywords (by decide) "BY"
  have limit : Starts (Pattern.word "LIMIT") ["LIMIT"] := starts_keyword (by decide)
  obtain ⟨gap, blank, e⟩ := upTo_body c.after limit (by decide)
    (Listed.body_avoids (fun i => i.avoids (by decide) (by decide)) c.items)
    (q.meets_limitPart (.refl _))
  have text : q.render = q.unordered.text ++ (c.before.text ++
      ((c.order.text ++ (c.gap.text ++ c.by_.text)) ++ (c.after.text ++
        ((c.items.body OrderItem.phrase).text ++ Writing.text q.limitPart)))) := by
    rw [render_unordered, orderPart, h, Option.map_some, Option.getD_some, OrderClause.writing,
      Writing.text_cons, Writing.text_cons, Listed.after, Phrase.text_after]
    simp only [Break.text, Solid.text, List.append_assoc]
  have covers : ∀ before, inWord before = false → Pattern.phrase "ORDER" "BY" before
      ((c.order.text ++ (c.gap.text ++ c.by_.text)) ++ (c.after.text ++
        ((c.items.body OrderItem.phrase).text ++ Writing.text q.limitPart))) =
      some (c.order.text ++ (c.gap.text ++ c.by_.text)).length := by
    intro before alone
    rw [List.append_assoc, List.append_assoc]
    exact c.order.phrase_covers (by decide) (by decide) c.gap.text_ne_nil c.gap.isBlank c.by_ alone
      (c.after.inWord_head _)
  have filled : c.order.text ++ (c.gap.text ++ c.by_.text) ≠ [] :=
    List.append_ne_nil_of_left_ne_nil (c.order.filled (by decide)) _
  refine ⟨gap, blank, ?_⟩
  unfold orderClause?
  rw [text, first?_after starts (q.unordered_avoids.clear starts (by decide)) filled covers]
  exact congrArg some e

theorem orderItems_render : orderItems q.render = q.facts.orderItems := by
  unfold orderItems facts
  cases h : q.order with
  | none =>
    rw [q.orderClause?_of_none h]
    rfl
  | some c =>
    obtain ⟨gap, blank, e⟩ := q.orderClause?_of_some h
    rw [e]
    simp only
    rw [Listed.body, Phrase.text_extend, List.append_assoc,
      trimmedPieces_listed OrderItem.gapped c.after.isBlank blank, Option.map_some,
      Option.getD_some, Listed.items, List.map_cons, List.map_map]
    rfl

end FlatSelect

end SqlReview.Query
