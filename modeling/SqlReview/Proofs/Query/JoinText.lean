import Mathlib.Data.List.Basic
import SqlReview.Proofs.Query.JoinScope
import SqlReview.Proofs.Text.Parts

/-!
The joins of any text. What stands outside parentheses is found in a part of a query just as in the
whole, wherever the part is cut out: the cuts are made at the ends of words, no parenthesis is
closed in a part that was opened before it, and nothing that is found goes over a parenthesis.
-/
namespace SqlReview.Query

open Pattern (Stands Leftmost Finds inWord isSpelling)

/-- A text of a class stands as a whole word, outside parentheses, in a part of a query between the
text to its left and the text to its right. -/
structure FoundIn (K : Text → Prop) (left s right : Text) (o : Occurrence) : Prop where
  text : s = o.before ++ (o.covered ++ o.after)
  outside : depthAfter 0 o.before = some 0
  stands : Stands K (left ++ o.before) o.covered (o.after ++ right)

structure FirstIn (K : Text → Prop) (left s right : Text) (o : Occurrence) : Prop where
  found : FoundIn K left s right o
  first : ∀ o', FoundIn K left s right o' → o.before.length ≤ o'.before.length

/-- The text of a part up to the first one in it, or all of the part if there is none. -/
def UpTo (K : Text → Prop) (left s right text : Text) : Prop :=
  (∃ o, FirstIn K left s right o ∧ text = o.before) ∨
    (∀ o, ¬ FoundIn K left s right o) ∧ text = s

/-- A part that is cut out at the ends of words and closes no parenthesis opened before it. -/
structure IsPart (left s right : Text) : Prop where
  start : inWord left.getLast? = false ∨ inWord s.head? = false
  stop : inWord s.getLast? = false ∨ inWord right.head? = false
  nested : (depthAfter 0 s).isSome

/-- An occurrence in a text that comes after some other, of which x is the part before it, where as
many parentheses were opened as closed. -/
structure StandsOutside (K : Text → Prop) (seen s x : Text) (o : Occurrence) : Prop where
  before : o.before = seen ++ x
  text : s = x ++ (o.covered ++ o.after)
  stands : Stands K o.before o.covered o.after
  level : balance o.before = 0

section Search

variable {p : Pattern} {K : Text → Prop} {seen s x k y : Text} {o : Occurrence}
  {os : List Occurrence}

theorem unnested_of_finds (finds : Finds p K) (level : Level p) (kind : K k) : Unnested k := by
  have covers : p none (k ++ []) = some k.length := finds.covers_iff.2 ⟨rfl, kind, rfl⟩
  have all := level _ _ _ covers
  rwa [List.append_nil, List.take_length] at all

namespace StandsOutside

theorem further {z : Text} (h : StandsOutside K (seen ++ (x ++ k)) y z o) :
    StandsOutside K seen (x ++ (k ++ y)) (x ++ k ++ z) o where
  before := by rw [h.before, List.append_assoc seen]
  text := by rw [h.text, List.append_assoc x, List.append_assoc x, List.append_assoc k]
  stands := h.stands
  level := h.level

/-- After a first occurrence in parentheses one outside does not begin before that ends. -/
theorem exists_later (unnested : Unnested k) (deep : balance (seen ++ x) ≠ 0) {x' : Text}
    (h : StandsOutside K seen (x ++ (k ++ y)) x' o) (later : x.length ≤ x'.length) :
    ∃ z, x' = x ++ k ++ z ∧ StandsOutside K (seen ++ (x ++ k)) y z o := by
  have level := h.level
  rw [h.before] at level
  obtain ⟨a, rfl⟩ := List.prefix_of_prefix_length_le ⟨_, rfl⟩ ⟨_, h.text.symm⟩ later
  have text := h.text
  rw [List.append_assoc, List.append_cancel_left_eq] at text
  rcases List.append_eq_append_iff.1 text with ⟨z, rfl, tail⟩ | ⟨b, rfl, _⟩
  · refine ⟨z, (List.append_assoc ..).symm, ?_, tail, h.stands, h.level⟩
    rw [h.before, List.append_assoc, List.append_assoc]
  · have inside := unnested.of_append_left.balanced.balance
    rw [← List.append_assoc, balance_append, inside, Int.add_zero] at level
    exact absurd level deep

end StandsOutside

/-- Of leftmost occurrences the first outside parentheses has no other before it: what overlaps an
occurrence stands in the same parentheses. -/
theorem find?_leftmost (unnested : ∀ k, K k → Unnested k) (leftmost : Leftmost K seen s os) :
    (os.find? outside = none → ∀ x o, ¬ StandsOutside K seen s x o) ∧
      ∀ o, os.find? outside = some o → ∃ x, StandsOutside K seen s x o ∧
        ∀ x' o', StandsOutside K seen s x' o' → x.length ≤ x'.length := by
  induction leftmost with
  | done none =>
    refine ⟨fun _ x o h => none x o.covered o.after h.text ?_, fun _ found => nomatch found⟩
    exact h.before ▸ h.stands
  | @next seen x k y os here first _ ih =>
    have first' (x' : Text) (o' : Occurrence) (h : StandsOutside K seen (x ++ (k ++ y)) x' o') :
        x.length ≤ x'.length := first x' o'.covered o'.after h.text (h.before ▸ h.stands)
    by_cases flat : balance (seen ++ x) = 0
    · have top : outside ⟨seen ++ x, k, y⟩ = true := decide_eq_true flat
      rw [List.find?_cons_of_pos top]
      refine ⟨fun none => (nomatch none), fun o found => ?_⟩
      obtain rfl := Option.some.inj found
      exact ⟨x, ⟨rfl, rfl, here, flat⟩, first'⟩
    · have hidden : ¬ outside ⟨seen ++ x, k, y⟩ = true := fun h => flat (of_decide_eq_true h)
      rw [List.find?_cons_of_neg hidden]
      have later {x' : Text} {o' : Occurrence} (h : StandsOutside K seen (x ++ (k ++ y)) x' o') :=
        h.exists_later (unnested k here.kind) flat (first' x' o' h)
      constructor
      · intro none x' o' h
        obtain ⟨z, _, inner⟩ := later h
        exact ih.1 none z o' inner
      · intro o found
        obtain ⟨z, h, least⟩ := ih.2 o found
        refine ⟨x ++ k ++ z, h.further, fun x' o' h' => ?_⟩
        obtain ⟨z', rfl, inner⟩ := later h'
        have shorter := least z' o' inner
        simp only [List.length_append]
        omega

theorem depthAfter_eq_zero_iff {x y : Text} (nested : (depthAfter 0 (x ++ y)).isSome) :
    depthAfter 0 x = some 0 ↔ balance x = 0 := by
  rw [depthAfter_append] at nested
  cases e : depthAfter 0 x with
  | none =>
    rw [e] at nested
    cases nested
  | some d =>
    rw [balance_of_depthAfter e, Option.some.injEq]
    omega

theorem foundIn_iff_standsOutside (nested : (depthAfter 0 s).isSome) :
    FoundIn K [] s [] o ↔ StandsOutside K [] s o.before o := by
  constructor
  · intro h
    have stands := h.stands
    rw [List.append_nil] at stands
    rw [h.text] at nested
    exact ⟨rfl, h.text, stands, (depthAfter_eq_zero_iff nested).1 h.outside⟩
  · intro h
    have stands := h.stands
    rw [← List.append_nil o.after] at stands
    rw [h.text] at nested
    exact ⟨h.text, (depthAfter_eq_zero_iff nested).2 h.level, stands⟩

theorem firstOutside?_spec (finds : Finds p K) (level : Level p)
    (nested : (depthAfter 0 s).isSome) :
    (firstOutside? p s = none → ∀ o, ¬ FoundIn K [] s [] o) ∧
      ∀ o, firstOutside? p s = some o → FirstIn K [] s [] o := by
  obtain ⟨none, some_⟩ := find?_leftmost (fun _ => unnested_of_finds finds level)
    (finds.leftmost_occurrencesFrom [] s)
  constructor
  · intro e o h
    exact none e o.before o ((foundIn_iff_standsOutside nested).1 h)
  · intro o e
    obtain ⟨x, h, least⟩ := some_ o e
    obtain rfl : o.before = x := h.before
    refine ⟨(foundIn_iff_standsOutside nested).2 h, fun o' h' => ?_⟩
    exact least o'.before o' ((foundIn_iff_standsOutside nested).1 h')

end Search

section Parts

variable {p : Pattern} {K L : Text → Prop} {left s right : Text} {o o' : Occurrence}

namespace FoundIn

theorem before_eq (h : FoundIn K left s right o) (h' : FoundIn L left s right o')
    (same : o.before.length = o'.before.length) : o.before = o'.before :=
  (List.append_inj (h.text.symm.trans h'.text) same).1

theorem append_right {t : Text} (h : FoundIn K left s (t ++ right) o) :
    FoundIn K left (s ++ t) right ⟨o.before, o.covered, o.after ++ t⟩ where
  text := by
    rw [h.text]
    simp
  outside := h.outside
  stands := by
    have stands := h.stands
    rwa [← List.append_assoc] at stands

theorem append_left {t : Text} (h : FoundIn K (left ++ t) s right o) (balanced : Balanced t) :
    FoundIn K left (t ++ s) right ⟨t ++ o.before, o.covered, o.after⟩ where
  text := by
    rw [h.text]
    simp
  outside := by
    rw [depthAfter_append, balanced 0]
    exact h.outside
  stands := by
    have stands := h.stands
    rwa [List.append_assoc] at stands

theorem exists_append (h : FoundIn K left s right o) (h' : FoundIn L left s right o')
    (le : o.before.length ≤ o'.before.length) : ∃ t, o'.before = o.before ++ t ∧
      o.covered ++ (o.after ++ right) = t ++ (o'.covered ++ (o'.after ++ right)) := by
  have whole := h.text.symm.trans h'.text
  obtain ⟨t, e⟩ := List.prefix_of_prefix_length_le ⟨_, h.text.symm⟩ ⟨_, h'.text.symm⟩ le
  refine ⟨t, e.symm, ?_⟩
  rw [← e, List.append_assoc, List.append_cancel_left_eq] at whole
  rw [← List.append_assoc, whole]
  simp

/-- What is found in a part is found in the part by itself, and the other way round: at its ends
the part is cut between words. -/
theorem iff_alone (finds : Finds p K) (start : inWord left.getLast? = false ∨ inWord s.head? = false)
    (stop : inWord s.getLast? = false ∨ inWord right.head? = false) :
    FoundIn K left s right o ↔ FoundIn K [] s [] o := by
  have cut : Pattern.CutOut left s right := ⟨start, stop⟩
  constructor
  · exact fun h => ⟨h.text, h.outside, (finds.stands_iff_alone cut h.text).1 h.stands⟩
  · exact fun h => ⟨h.text, h.outside, (finds.stands_iff_alone cut h.text).2 h.stands⟩

end FoundIn

namespace IsPart

variable (part : IsPart left s right) (found : FoundIn K left s right o)

include part found

theorem before : IsPart left o.before (o.covered ++ (o.after ++ right)) where
  start := by
    have start := part.start
    rw [found.text] at start
    exact start.imp_right Pattern.inWord_head_of_append
  stop := .inl (Pattern.inWord_getLast_of_append found.stands.start)
  nested := by rw [found.outside]; rfl

theorem after (unnested : Unnested o.covered) :
    IsPart (left ++ (o.before ++ o.covered)) o.after right where
  start := .inr (Pattern.inWord_head_of_append found.stands.stop)
  stop := by
    have stop := part.stop
    rw [found.text, ← List.append_assoc] at stop
    exact stop.imp_left Pattern.inWord_getLast_of_append
  nested := by
    have nested := part.nested
    rw [found.text, depthAfter_append, found.outside, Option.bind_some, depthAfter_append,
      unnested.balanced 0] at nested
    exact nested

end IsPart

/-- A search in a part tells what is found in it first, if anything is. -/
theorem IsPart.search (part : IsPart left s right) (finds : Finds p K) (level : Level p) :
    (firstOutside? p s = none ∧ ∀ o, ¬ FoundIn K left s right o) ∨
      ∃ o, firstOutside? p s = some o ∧ FirstIn K left s right o := by
  have alone (o : Occurrence) : FoundIn K left s right o ↔ FoundIn K [] s [] o :=
    FoundIn.iff_alone finds part.start part.stop
  obtain ⟨none_, some_⟩ := firstOutside?_spec finds level part.nested
  cases e : firstOutside? p s with
  | none => exact .inl ⟨rfl, fun o found => none_ e o ((alone o).1 found)⟩
  | some o =>
    obtain ⟨found, first⟩ := some_ o e
    refine .inr ⟨o, rfl, (alone o).2 found, fun o' found' => ?_⟩
    exact first o' ((alone o').1 found')

theorem FirstIn.before_eq (h : FirstIn K left s right o) (h' : FirstIn K left s right o') :
    o.before = o'.before :=
  h.found.before_eq h'.found (Nat.le_antisymm (h.first o' h'.found) (h'.first o h.found))

theorem UpTo.eq {t t' : Text} (h : UpTo K left s right t) (h' : UpTo K left s right t') :
    t = t' := by
  rcases h with ⟨o, first, rfl⟩ | ⟨none, rfl⟩
  · rcases h' with ⟨o', first', rfl⟩ | ⟨none, _⟩
    · exact first.before_eq first'
    · exact absurd first.found (none o)
  · rcases h' with ⟨o', first', _⟩ | ⟨_, rfl⟩
    · exact absurd first'.found (none o')
    · rfl

theorem UpTo.not_foundIn {t : Text} (finds : Finds p K) (part : IsPart left s right)
    (h : UpTo K left s right t) : ∀ o, ¬ FoundIn K [] t [] o := by
  intro o found
  rcases h with ⟨b, first, rfl⟩ | ⟨none, rfl⟩
  · have before := part.before first.found
    have inside := (FoundIn.iff_alone finds before.start before.stop).2 found
    rw [← List.append_assoc] at inside
    have whole := inside.append_right
    rw [← first.found.text] at whole
    have late := first.first _ whole
    change b.before.length ≤ o.before.length at late
    have filled := List.length_pos_iff.2 (finds.ne_nil found.stands.kind)
    have text := congrArg List.length found.text
    simp only [List.length_append] at text
    omega
  · exact none o ((FoundIn.iff_alone finds part.start part.stop).2 found)

theorem not_foundIn_trim (finds : Finds p K) (none : ∀ o, ¬ FoundIn K [] s [] o) :
    ∀ o, ¬ FoundIn K [] (Text.trim s) [] o := by
  intro o found
  obtain ⟨before, after, e, blank, blank'⟩ := Text.exists_trim s
  have start : inWord before.getLast? = false := by
    rw [← List.head?_reverse]
    exact inWord_head_of_marks fun c hc => not_isWord_of_blank blank c (List.mem_reverse.1 hc)
  have stop := inWord_head_of_marks (not_isWord_of_blank blank')
  have inside := (FoundIn.iff_alone finds (.inl start) (.inr stop)).2 found
  rw [← List.append_nil after] at inside
  have longer : FoundIn K ([] ++ before) _ [] _ := inside.append_right
  have whole := longer.append_left (unnested_blank blank).balanced
  rw [← e] at whole
  exact none _ whole

end Parts

section Entries

/-- The text after a join up to the parenthesis that closes one opened before it, which is the first
that closes none of the text's own, or up to the end. -/
structure IsScope (after scope rest : Text) : Prop where
  text : after = scope ++ rest
  nested : (depthAfter 0 scope).isSome
  closes : rest = [] ∨ (∃ t, rest = ')' :: t) ∧ depthAfter 0 scope = some 0

def IsOn (k : Text) : Prop := isSpelling "ON" k = true

/-- An ON that belongs to the join before the text: no other join and no clause comes before it. -/
structure IsOwnOn (left scope right : Text) (on : Occurrence) : Prop where
  found : FoundIn IsOn left scope right on
  bare : ∀ b, ¬ FoundIn IsBoundary left on.before (on.covered ++ (on.after ++ right)) b

/-- What a join tells: nothing if no ON belongs to it, or else the text up to the first one that does
and the text from there up to the next join or clause. -/
inductive IsEntry (left scope right : Text) : Option JoinCondition → Prop
  | nothing (bare : ∀ on, ¬ IsOwnOn left scope right on) : IsEntry left scope right none
  | condition {on : Occurrence} {text : Text} (own : IsOwnOn left scope right on)
      (first : ∀ on', IsOwnOn left scope right on' → on.before.length ≤ on'.before.length)
      (upTo : UpTo IsBoundary (left ++ (on.before ++ on.covered)) on.after right text) :
      IsEntry left scope right (some ⟨Text.trim on.before, Text.trim text⟩)

variable {left scope right after rest : Text}

theorem finds_on : Finds (.word "ON") IsOn :=
  Pattern.finds_word (Sql.capitals_of_reserved _ (by decide))

theorem isEntry_ofScope? (part : IsPart left scope right) :
    IsEntry left scope right (JoinCondition.ofScope? scope) := by
  unfold JoinCondition.ofScope?
  rcases part.search finds_on level_on with ⟨e, none⟩ | ⟨on, e, first⟩
  · rw [e]
    exact .nothing fun on own => none on own.found
  · rw [e]
    have unnested := unnested_of_finds finds_on level_on first.found.stands.kind
    have before := part.before first.found
    have after := part.after first.found unnested
    simp only
    rcases before.search finds_predicateEnd level_predicateEnd with ⟨e, bare⟩ | ⟨b, e, boundary⟩
    · rw [e]
      have own : IsOwnOn left scope right on := ⟨first.found, bare⟩
      have first_ (on' : Occurrence) (own' : IsOwnOn left scope right on') :=
        first.first on' own'.found
      rcases after.search finds_predicateEnd level_predicateEnd with ⟨e, none⟩ | ⟨b, e, next⟩
      · rw [e]
        exact .condition own first_ (.inr ⟨none, rfl⟩)
      · rw [e]
        exact .condition own first_ (.inl ⟨b, next, rfl⟩)
    · rw [e]
      -- what comes before the first ON comes before all
      refine .nothing fun on' own' => ?_
      obtain ⟨t, before', later⟩ :=
        first.found.exists_append own'.found (first.first on' own'.found)
      have found := boundary.found
      rw [later] at found
      have found' := found.append_right
      rw [← before'] at found'
      exact own'.bare _ found'

theorem IsOwnOn.eq {on on' : Occurrence} (own : IsOwnOn left scope right on)
    (own' : IsOwnOn left scope right on') (le : on.before.length ≤ on'.before.length)
    (ge : on'.before.length ≤ on.before.length) : on = on' := by
  have before := own.found.before_eq own'.found (Nat.le_antisymm le ge)
  have text := own.found.text.symm.trans own'.found.text
  have two (k : Text) (kind : IsOn k) : k.length = 2 := (Pattern.length_of_isSpelling kind).symm
  have lengths : on.covered.length = on'.covered.length := by
    rw [two _ own.found.stands.kind, two _ own'.found.stands.kind]
  rw [before, List.append_cancel_left_eq] at text
  obtain ⟨covered, after⟩ := List.append_inj text lengths
  obtain ⟨_, _, _⟩ := on
  obtain ⟨_, _, _⟩ := on'
  cases before
  cases covered
  cases after
  rfl

theorem IsEntry.eq {e e' : Option JoinCondition} (h : IsEntry left scope right e)
    (h' : IsEntry left scope right e') : e = e' := by
  cases h with
  | nothing bare =>
    cases h' with
    | nothing => rfl
    | condition own => exact absurd own (bare _)
  | condition own first upTo =>
    cases h' with
    | nothing bare => exact absurd own (bare _)
    | condition own' first' upTo' =>
      obtain rfl := own.eq own' (first _ own') (first' _ own)
      rw [upTo.eq upTo']

theorem IsEntry.not_foundIn {e : JoinCondition} (part : IsPart left scope right)
    (h : IsEntry left scope right (some e)) : ∀ o, ¬ FoundIn IsBoundary [] e.condition [] o := by
  cases h with
  | condition own first upTo =>
    have unnested := unnested_of_finds finds_on level_on own.found.stands.kind
    have after := part.after own.found unnested
    exact not_foundIn_trim finds_predicateEnd (upTo.not_foundIn finds_predicateEnd after)

theorem isPart_scope {o : Occurrence} (stands : Stands IsJoin o.before o.covered o.after)
    (h : IsScope o.after scope rest) : IsPart (o.before ++ o.covered) scope rest where
  start := by
    have stop := stands.stop
    rw [h.text] at stop
    exact .inr (Pattern.inWord_head_of_append stop)
  stop := by
    have closing : Text.isWord ')' = false := by decide
    rcases h.closes with rfl | ⟨⟨t, rfl⟩, _⟩
    · exact .inr rfl
    · exact .inr closing
  nested := h.nested

theorem IsScope.withinEnclosing_eq (h : IsScope after scope rest) :
    withinEnclosing 0 after = scope := by
  obtain ⟨d, hd⟩ := Option.isSome_iff_exists.1 h.nested
  rw [h.text, withinEnclosing_append hd]
  rcases h.closes with rfl | ⟨⟨t, rfl⟩, flat⟩
  · exact List.append_nil scope
  · obtain rfl := Option.some.inj (hd.symm.trans flat)
    exact List.append_nil scope

theorem exists_withinEnclosing (d : Nat) (s : Text) : ∃ rest, s = withinEnclosing d s ++ rest ∧
    (depthAfter d (withinEnclosing d s)).isSome ∧
    (rest = [] ∨ (∃ t, rest = ')' :: t) ∧ depthAfter d (withinEnclosing d s) = some 0) := by
  fun_induction withinEnclosing d s with
  | case1 d => exact ⟨[], rfl, rfl, .inl rfl⟩
  | case2 d s ih =>
    obtain ⟨rest, text, nested, closes⟩ := ih
    refine ⟨rest, congrArg ('(' :: ·) text, ?_⟩
    simpa only [depthAfter, if_true] using And.intro nested closes
  | case3 s => exact ⟨')' :: s, rfl, rfl, .inr ⟨⟨s, rfl⟩, rfl⟩⟩
  | case4 s d _ ih =>
    obtain ⟨rest, text, nested, closes⟩ := ih
    refine ⟨rest, congrArg (')' :: ·) text, nested, closes⟩
  | case5 d c s opens closes ih =>
    obtain ⟨rest, text, found⟩ := ih
    refine ⟨rest, congrArg (c :: ·) text, ?_⟩
    rwa [depthAfter_cons_of_ne opens closes]

theorem exists_isScope (after : Text) : ∃ rest, IsScope after (withinEnclosing 0 after) rest := by
  obtain ⟨rest, text, nested, closes⟩ := exists_withinEnclosing 0 after
  exact ⟨rest, text, nested, closes⟩

/-- Where more parentheses are open after a text than some number, they were open before it, or one
is opened in it that nothing after it closes. -/
theorem exists_opened {a d : Nat} {s : Text} (h : depthAfter a s = some (d + 1)) :
    (d + 1 ≤ a ∧ depthAfter (a - (d + 1)) s = some 0) ∨
      ∃ front inner, s = front ++ '(' :: inner ∧ depthAfter 0 inner = some 0 := by
  fun_induction depthAfter a s with
  | case1 a =>
    obtain rfl := Option.some.inj h
    exact .inl ⟨Nat.le_refl _, congrArg some (Nat.sub_self _)⟩
  | case2 a s ih =>
    rcases ih h with ⟨open_, flat⟩ | ⟨front, inner, rfl, flat⟩
    · by_cases deep : d + 1 ≤ a
      · rw [Nat.sub_add_comm deep] at flat
        exact .inl ⟨deep, flat⟩
      · obtain rfl : a = d := by omega
        rw [Nat.sub_self] at flat
        exact .inr ⟨[], s, rfl, flat⟩
    · exact .inr ⟨'(' :: front, inner, rfl, flat⟩
  | case3 s => cases h
  | case4 s a _ ih =>
    rcases ih h with ⟨open_, flat⟩ | ⟨front, inner, rfl, flat⟩
    · refine .inl ⟨Nat.le_succ_of_le open_, ?_⟩
      rw [Nat.succ_sub open_]
      exact flat
    · exact .inr ⟨')' :: front, inner, rfl, flat⟩
  | case5 a c s opens closes ih =>
    rcases ih h with ⟨open_, flat⟩ | ⟨front, inner, rfl, flat⟩
    · refine .inl ⟨open_, ?_⟩
      rwa [depthAfter_cons_of_ne opens closes]
    · exact .inr ⟨c :: front, inner, rfl, flat⟩

theorem IsScope.exists_opening {before covered t : Text} (h : IsScope after scope (')' :: t))
    (unnested : Unnested covered) (nested : (depthAfter 0 (before ++ (covered ++ after))).isSome) :
    ∃ front inner, before = front ++ '(' :: inner ∧
      depthAfter 0 (inner ++ (covered ++ scope)) = some 0 := by
  have flat : depthAfter 0 scope = some 0 := by
    rcases h.closes with none | ⟨_, flat⟩
    · cases none
    · exact flat
  have balanced : Balanced (covered ++ scope) :=
    unnested.balanced.append (balanced_of_depthAfter flat)
  rw [h.text, ← List.append_assoc covered, depthAfter_append] at nested
  obtain ⟨d, e⟩ := Option.isSome_iff_exists.1 (Option.isSome_of_isSome_bind nested)
  rw [e, Option.bind_some, depthAfter_append, balanced d, Option.bind_some] at nested
  cases d with
  | zero => cases nested
  | succ d =>
    rcases exists_opened e with ⟨none, _⟩ | ⟨front, inner, rfl, inside⟩
    · cases none
    · refine ⟨front, inner, rfl, ?_⟩
      rw [depthAfter_append, inside]
      exact balanced 0

/-- The joins of any text with the conditions they have. Each leftmost JOIN with the words before it
is looked at in the text up to the parenthesis that closes one opened before it; its entry is told
by the first ON outside parentheses that belongs to it. No condition has a word outside parentheses
that would end it. -/
theorem joinConditions_eq_iff (query : Text) :
    (∀ joins, joinConditions query = joins ↔
      ∃ os, Leftmost IsJoin [] query os ∧ ∃ entry : Occurrence → Option JoinCondition,
        (∀ o ∈ os, ∃ scope rest, IsScope o.after scope rest ∧
          IsEntry (o.before ++ o.covered) scope rest (entry o)) ∧ joins = os.filterMap entry) ∧
    (∀ e ∈ joinConditions query, ∀ o, ¬ FoundIn IsBoundary [] e.condition [] o) ∧
    ((depthAfter 0 query).isSome → ∀ os, Leftmost IsJoin [] query os → ∀ o ∈ os, ∀ scope t,
      IsScope o.after scope (')' :: t) → ∃ front inner, o.before = front ++ '(' :: inner ∧
        depthAfter 0 (inner ++ (o.covered ++ scope)) = some 0) := by
  have leftmost : Leftmost IsJoin [] query (joinKeyword.occurrences query) :=
    finds_joinKeyword.leftmost_iff.2 rfl
  refine ⟨fun joins => ⟨?_, ?_⟩, ?_, ?_⟩
  · rintro rfl
    refine ⟨_, leftmost, fun o => JoinCondition.ofScope? (withinEnclosing 0 o.after), ?_, rfl⟩
    intro o ho
    obtain ⟨rest, isScope⟩ := exists_isScope o.after
    exact ⟨_, rest, isScope, isEntry_ofScope? (isPart_scope (leftmost.stands o ho) isScope)⟩
  · rintro ⟨os, leftmost', entry, entries, rfl⟩
    obtain rfl := finds_joinKeyword.leftmost_iff.1 leftmost'
    apply List.filterMap_congr
    intro o ho
    obtain ⟨scope, rest, isScope, isEntry⟩ := entries o ho
    rw [isScope.withinEnclosing_eq]
    exact (isEntry_ofScope? (isPart_scope (leftmost.stands o ho) isScope)).eq isEntry
  · intro e he
    obtain ⟨o, ho, told⟩ := List.mem_filterMap.1 he
    obtain ⟨rest, isScope⟩ := exists_isScope o.after
    have part := isPart_scope (leftmost.stands o ho) isScope
    exact (told ▸ isEntry_ofScope? part).not_foundIn part
  · intro nested os leftmost' o ho scope t isScope
    obtain rfl := finds_joinKeyword.leftmost_iff.1 leftmost'
    rw [Pattern.text_of_mem_occurrences ho] at nested
    have kind := (leftmost.stands o ho).kind
    exact isScope.exists_opening (unnested_of_finds finds_joinKeyword level_joinKeyword kind) nested

theorem joinConditions_enclosed :
    ∃ front inner : Text,
      joinConditions "SELECT a FROM (t LEFT JOIN u ON b = c)" = [⟨"u", "b = c"⟩] ∧
      "SELECT a FROM (t ".toList = front ++ '(' :: inner ∧
      depthAfter 0 (inner ++ ("LEFT JOIN".toList ++ " u ON b = c".toList)) = some 0 := by
  obtain ⟨_, _, closes⟩ := joinConditions_eq_iff "SELECT a FROM (t LEFT JOIN u ON b = c)"
  obtain ⟨front, inner, opened, flat⟩ := closes (by decide) _
    (finds_joinKeyword.leftmost_iff.2 rfl) ⟨"SELECT a FROM (t ", "LEFT JOIN", " u ON b = c)"⟩
    (by decide +kernel) " u ON b = c" [] ⟨rfl, by decide, .inr ⟨⟨[], rfl⟩, by decide⟩⟩
  exact ⟨front, inner, by decide +kernel, opened, flat⟩

end Entries

end SqlReview.Query
