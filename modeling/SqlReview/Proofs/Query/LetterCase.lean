import SqlReview.Complexity
import SqlReview.Query.Ordering
import SqlReview.Proofs.Query.JoinScope
import SqlReview.Proofs.Text.LetterCase

/-!
Queries that differ in the case of ASCII letters only: their conditions, joins and sort items stand
at the same places, and they are equally complex.
-/
namespace SqlReview.Query

open Text (Alike SamePlace)
open Pattern (Caseless)

section Clauses

variable {s s' : Text} {p : Pattern}

theorem samePlace_before {o o' : Occurrence} (e : s = o.before ++ (o.covered ++ o.after))
    (e' : s' = o'.before ++ (o'.covered ++ o'.after)) (h : o.Alike o') :
    SamePlace s s' o.before o'.before :=
  ⟨[], _, [], _, e, e', .refl _, h.before, h.covered.append h.after⟩

theorem samePlace_after {o o' : Occurrence} (e : s = o.before ++ (o.covered ++ o.after))
    (e' : s' = o'.before ++ (o'.covered ++ o'.after)) (h : o.Alike o') :
    SamePlace s s' o.after o'.after :=
  ⟨o.before ++ o.covered, [], o'.before ++ o'.covered, [], by simpa using e, by simpa using e',
    h.before.append h.covered, h.after, .refl _⟩

theorem samePlace_upTo (h : Caseless p) (hs : Alike s s') :
    SamePlace s s' (upTo p s) (upTo p s') := by
  have first := Pattern.first?_alike h hs
  unfold upTo
  cases e : p.first? s <;> cases e' : p.first? s' <;> rw [e, e'] at first <;> cases first
  · exact .refl hs
  · next found => exact samePlace_before (Pattern.text_of_first? e) (Pattern.text_of_first? e') found

theorem samePlace_clause {q : Pattern} (hp : Caseless p) (hq : Caseless q) (hs : Alike s s') :
    Option.Rel (SamePlace s s') ((p.first? s).map fun found => upTo q found.after)
      ((p.first? s').map fun found => upTo q found.after) := by
  have first := Pattern.first?_alike hp hs
  cases e : p.first? s <;> cases e' : p.first? s' <;> rw [e, e'] at first <;> cases first
  · exact .none
  · next found =>
    have after := samePlace_after (Pattern.text_of_first? e) (Pattern.text_of_first? e') found
    exact .some (after.trans (samePlace_upTo hq after.alike))

theorem samePlace_trimmedPieces {ps ps' : List Text} (h : List.Forall₂ (SamePlace s s') ps ps') :
    List.Forall₂ (SamePlace s s') (trimmedPieces ps) (trimmedPieces ps') := by
  have trimmed : List.Forall₂ (SamePlace s s') (ps.map Text.trim) (ps'.map Text.trim) := by
    apply List.rel_map (R := SamePlace s s') _ h
    intro piece piece' place
    exact place.trans (Text.samePlace_trim place.alike)
  apply List.rel_filter _ trimmed
  intro piece piece' place
  simp only [place.alike.isEmpty]

theorem caseless_conditionEnd : Caseless conditionEnd := by
  apply Pattern.caseless_oneOf
  simp [Pattern.caseless_phrase, Pattern.caseless_word]

theorem caseless_connector : Caseless connector := by
  apply Pattern.caseless_oneOf
  simp [Pattern.caseless_word]

theorem samePlace_conditions (h : Alike s s') :
    List.Forall₂ (SamePlace s s') (conditions s) (conditions s') := by
  have clause : Option.Rel (SamePlace s s') (whereClause? s) (whereClause? s') :=
    samePlace_clause (Pattern.caseless_word _) caseless_conditionEnd h
  unfold conditions
  generalize whereClause? s = found, whereClause? s' = found' at clause ⊢
  cases clause with
  | none => exact .nil
  | some place =>
    have trimmed := place.trans (Text.samePlace_trim place.alike)
    have pieces := Pattern.samePlace_split caseless_connector trimmed.alike
    exact samePlace_trimmedPieces (pieces.imp fun _ _ piece => trimmed.trans piece)

theorem samePlace_orderItems (h : Alike s s') :
    List.Forall₂ (SamePlace s s') (orderItems s) (orderItems s') := by
  have clause : Option.Rel (SamePlace s s') (orderClause? s) (orderClause? s') :=
    samePlace_clause (Pattern.caseless_phrase _ _) (Pattern.caseless_word _) h
  have comma (c : Char) : (c.toLower == ',') = (c == ',') := by
    rw [Bool.eq_iff_iff, beq_iff_eq, beq_iff_eq, Text.toLower_eq_iff (by decide)]
  unfold orderItems
  generalize orderClause? s = found, orderClause? s' = found' at clause ⊢
  cases clause with
  | none => exact .nil
  | some place =>
    have pieces := Text.samePlace_cut (· == ',') comma place.alike
    exact samePlace_trimmedPieces (pieces.imp fun _ _ piece => place.trans piece)

end Clauses

section Joins

variable {s s' : Text} {p : Pattern}

theorem leadLength?_lower (s : Text) : leadLength? (Text.lower s) = leadLength? s := by
  simp only [leadLength?, Pattern.spells_lower, Pattern.drop_lower, Pattern.blankCount_lower]

theorem leadsLengthFrom_lower (skip : Nat) (s : Text) :
    leadsLengthFrom skip (Text.lower s) = leadsLengthFrom skip s := by
  induction s generalizing skip with
  | nil => cases skip <;> rfl
  | cons c s ih =>
    have lowered : Text.lower (c :: s) = c.toLower :: Text.lower s := rfl
    have here : leadLength? (c.toLower :: Text.lower s) = leadLength? (c :: s) :=
      leadLength?_lower (c :: s)
    cases skip with
    | succ skip => rw [lowered, leadsLengthFrom_succ, leadsLengthFrom_succ, ih]
    | zero =>
      change leadsLength (Text.lower (c :: s)) = leadsLength (c :: s)
      rw [lowered, leadsLength_cons, leadsLength_cons, here]
      simp only [ih]

theorem caseless_joinKeyword : Caseless joinKeyword := by
  intro before s
  have join := Pattern.caseless_word "JOIN".toList none (s.drop (leadsLength s))
  simp only [joinKeyword, leadsLength, Pattern.inWord_map, leadsLengthFrom_lower,
    Pattern.drop_lower] at join ⊢
  rw [← join]
  rfl

theorem caseless_predicateEnd : Caseless predicateEnd := by
  apply Pattern.caseless_oneOf
  simp [Pattern.caseless_phrase, Pattern.caseless_word, caseless_joinKeyword]

theorem balance_alike (h : Alike s s') : balance s = balance s' := by
  have lowered (s : Text) : balance (Text.lower s) = balance s := by
    have opens (c : Char) : c.toLower = '(' ↔ c = '(' := Text.toLower_eq_iff (by decide)
    have closes (c : Char) : c.toLower = ')' ↔ c = ')' := Text.toLower_eq_iff (by decide)
    simp only [balance, Text.lower, List.foldl_map, opens, closes]
  rw [← lowered s, ← lowered s', h]

theorem samePlace_withinEnclosing (depth : Nat) (h : Alike s s') :
    SamePlace s s' (withinEnclosing depth s) (withinEnclosing depth s') := by
  suffices split : ∃ rest rest', s = withinEnclosing depth s ++ rest ∧
      s' = withinEnclosing depth s' ++ rest' ∧
      Alike (withinEnclosing depth s) (withinEnclosing depth s') ∧ Alike rest rest' by
    obtain ⟨rest, rest', e, e', within, later⟩ := split
    exact ⟨[], rest, [], rest', e, e', .refl _, within, later⟩
  induction s generalizing depth s' with
  | nil =>
    obtain rfl := h.nil_left
    exact ⟨[], [], rfl, rfl, .refl _, .refl _⟩
  | cons c s ih =>
    obtain ⟨d, t, rfl, same, ht⟩ := h.cons_left
    have mark (m : Char) (no : Text.isAsciiLetter m = false) : d = m ↔ c = m := by
      rw [← Text.toLower_eq_iff no, ← same, Text.toLower_eq_iff no]
    have opens := mark '(' (by decide)
    have closes := mark ')' (by decide)
    -- one more character inside, whatever the depth is after it
    have keep (depth' : Nat) : ∃ rest rest', c :: s = (c :: withinEnclosing depth' s) ++ rest ∧
        d :: t = (d :: withinEnclosing depth' t) ++ rest' ∧
        Alike (c :: withinEnclosing depth' s) (d :: withinEnclosing depth' t) ∧
        Alike rest rest' := by
      obtain ⟨rest, rest', e, e', within, later⟩ := ih depth' ht
      exact ⟨rest, rest', congrArg (c :: ·) e, congrArg (d :: ·) e', within.cons same, later⟩
    simp only [withinEnclosing, opens, closes]
    split
    · exact keep (depth + 1)
    split
    · cases depth with
      | zero => exact ⟨c :: s, d :: t, rfl, rfl, .refl _, h⟩
      | succ depth => exact keep depth
    · exact keep depth

def SameFound (s s' : Text) (o o' : Occurrence) : Prop :=
  SamePlace s s' o.before o'.before ∧ SamePlace s s' o.after o'.after

theorem sameFound_occurrences (h : Caseless p) (hs : Alike s s') :
    List.Forall₂ (SameFound s s') (p.occurrences s) (p.occurrences s') := by
  have all := Pattern.occurrences_alike h hs
  rw [List.forall₂_iff_get] at all ⊢
  refine ⟨all.1, fun i hi hi' => ?_⟩
  have e := Pattern.text_of_mem_occurrences (List.get_mem (p.occurrences s) ⟨i, hi⟩)
  have e' := Pattern.text_of_mem_occurrences (List.get_mem (p.occurrences s') ⟨i, hi'⟩)
  exact ⟨samePlace_before e e' (all.2 i hi hi'), samePlace_after e e' (all.2 i hi hi')⟩

theorem firstOutside?_alike (h : Caseless p) (hs : Alike s s') :
    Option.Rel (SameFound s s') (firstOutside? p s) (firstOutside? p s') := by
  have all := sameFound_occurrences h hs
  unfold firstOutside?
  generalize p.occurrences s = found, p.occurrences s' = found' at all ⊢
  induction all with
  | nil => exact .none
  | cons first _ ih =>
    rw [List.find?_cons, List.find?_cons, balance_alike first.1.alike]
    split
    · exact .some first
    · exact ih

def SameJoin (s s' : Text) (j j' : JoinCondition) : Prop :=
  SamePlace s s' j.table j'.table ∧ SamePlace s s' j.condition j'.condition

theorem samePlace_upToOutside (h : Caseless p) (hs : Alike s s') : SamePlace s s'
    (match firstOutside? p s with | some found => found.before | none => s)
    (match firstOutside? p s' with | some found => found.before | none => s') := by
  have first := firstOutside?_alike h hs
  generalize firstOutside? p s = found, firstOutside? p s' = found' at first ⊢
  cases first with
  | none => exact .refl hs
  | some found => exact found.1

theorem ofScope?_alike (h : Alike s s') :
    Option.Rel (SameJoin s s') (JoinCondition.ofScope? s) (JoinCondition.ofScope? s') := by
  have on := firstOutside?_alike (Pattern.caseless_word "ON".toList) h
  unfold JoinCondition.ofScope?
  generalize firstOutside? (.word "ON".toList) s = found,
    firstOutside? (.word "ON".toList) s' = found' at on ⊢
  cases on with
  | none => exact .none
  | @some o o' on =>
    have cut := firstOutside?_alike caseless_predicateEnd on.1.alike
    have ends : (firstOutside? predicateEnd o.before).isSome =
        (firstOutside? predicateEnd o'.before).isSome := by
      generalize firstOutside? predicateEnd o.before = found,
        firstOutside? predicateEnd o'.before = found' at cut ⊢
      cases cut <;> rfl
    have predicate := samePlace_upToOutside caseless_predicateEnd on.2.alike
    simp only [ends]
    split
    · exact .none
    · exact .some ⟨on.1.trans (Text.samePlace_trim on.1.alike),
        on.2.trans (predicate.trans (Text.samePlace_trim predicate.alike))⟩

theorem sameJoin_joinConditions (h : Alike s s') :
    List.Forall₂ (SameJoin s s') (joinConditions s) (joinConditions s') := by
  apply List.rel_filterMap _ (sameFound_occurrences caseless_joinKeyword h)
  intro o o' found
  have scope := found.2.trans (samePlace_withinEnclosing 0 found.2.alike)
  have join := ofScope?_alike scope.alike
  change Option.Rel (SameJoin s s') (JoinCondition.ofScope? (withinEnclosing 0 o.after))
    (JoinCondition.ofScope? (withinEnclosing 0 o'.after))
  generalize JoinCondition.ofScope? (withinEnclosing 0 o.after) = j,
    JoinCondition.ofScope? (withinEnclosing 0 o'.after) = j' at join ⊢
  cases join with
  | none => exact .none
  | some join => exact .some ⟨scope.trans join.1, scope.trans join.2⟩

end Joins

section Complexity

open Complexity

variable {s s' : Text}

theorem caseless_substring (part : Text) : Caseless (substring part) := by
  intro before s
  have twice (s : Text) : Text.lower (Text.lower s) = Text.lower s := by
    rw [Text.lower, Text.lower, List.map_map]
    exact List.map_congr_left fun c _ => Text.toLower_toLower c
  have taken : (Text.lower s).take part.length = Text.lower (s.take part.length) :=
    List.map_take.symm
  rw [substring, taken, twice, substring]

theorem caseless_windowCall : Caseless windowCall := by
  intro before s
  have parenthesis (t : Text) : (Text.lower t).head? = some '(' ↔ t.head? = some '(' := by
    cases t with
    | nil => rfl
    | cons c t =>
      have same : c.toLower = '(' ↔ c = '(' := Text.toLower_eq_iff (by decide)
      simpa [Text.lower] using same
  simp only [windowCall, Pattern.inWord_map, Pattern.spells_lower, Pattern.drop_lower,
    Pattern.blankCount_lower, parenthesis]

theorem points?_alike (h : Alike s s') (factor : Factor) : points? s factor = points? s' factor := by
  have selects : selectCount s = selectCount s' :=
    Pattern.count_alike (caseless_substring _) h
  have joins : joinCount s = joinCount s' := Pattern.count_alike (Pattern.caseless_word _) h
  have calls : aggregateCount s = aggregateCount s' := by
    unfold aggregateCount
    congr 1
    funext call total
    rw [Pattern.count_alike (caseless_substring call) h]
  have windows : windowCall.occursIn s = windowCall.occursIn s' :=
    Pattern.occursIn_alike caseless_windowCall h
  have conditions : conditionCount s = conditionCount s' := (samePlace_conditions h).length_eq
  have distinct : (Pattern.word "DISTINCT".toList).occursIn s =
      (Pattern.word "DISTINCT".toList).occursIn s' :=
    Pattern.occursIn_alike (Pattern.caseless_word _) h
  cases factor <;> simp only [points?, selects, joins, calls, windows, conditions, distinct]

theorem assess_alike (h : Alike s s') : Assessment.assess s = Assessment.assess s' := by
  unfold Assessment.assess
  rw [funext (points?_alike h)]

end Complexity

/-- Parts of two queries that take the same bytes and differ in letter case at most. -/
def SameBytes (query query' part part' : Text) : Prop :=
  Alike part part' ∧ ∃ r : Text.ByteRange, r.Holds query part ∧ r.Holds query' part'

theorem sameBytes_of_samePlace {s s' part part' : Text} (h : SamePlace s s' part part') :
    SameBytes s s' part part' := ⟨h.alike, h.exists_range⟩

/-- The case of letters decides nothing about conditions, joins, sort items and complexity. -/
theorem extraction_caseless {query query' : Text} (h : Text.lower query = Text.lower query') :
    List.Forall₂ (SameBytes query query') (conditions query) (conditions query') ∧
      List.Forall₂ (fun join join' => SameBytes query query' join.table join'.table ∧
        SameBytes query query' join.condition join'.condition)
        (joinConditions query) (joinConditions query') ∧
      List.Forall₂ (SameBytes query query') (orderItems query) (orderItems query') ∧
      (Assessment.assess query).score = (Assessment.assess query').score ∧
      ∀ factor, (Assessment.assess query).isFound factor =
        (Assessment.assess query').isFound factor := by
  have joins := (sameJoin_joinConditions h).imp fun _ _ join =>
    And.intro (sameBytes_of_samePlace join.1) (sameBytes_of_samePlace join.2)
  refine ⟨(samePlace_conditions h).imp fun _ _ => sameBytes_of_samePlace, joins,
    (samePlace_orderItems h).imp fun _ _ => sameBytes_of_samePlace, ?_, fun factor => ?_⟩
  · rw [assess_alike h]
  · rw [assess_alike h]

def shouted : Text := "SELECT DISTINCT ß FROM T JOIN U ON T.I = U.I WHERE K > 1 ORDER BY J"

def whispered : Text := "select distinct ß from t join u on t.i = u.i where k > 1 order by j"

theorem extraction_caseless_shouted : Text.lower shouted = Text.lower whispered ∧
    List.Forall₂ (SameBytes shouted whispered) ["K > 1"] ["k > 1"] ∧
    SameBytes shouted whispered "T.I = U.I" "t.i = u.i" ∧
    List.Forall₂ (SameBytes shouted whispered) ["J"] ["j"] ∧
    (Assessment.assess whispered).score = 1 ∧
    (Assessment.assess whispered).isFound .distinctOperator = true := by
  have alike : Text.lower shouted = Text.lower whispered := by decide +kernel
  have where_ : conditions shouted = ["K > 1"] ∧ conditions whispered = ["k > 1"] := by
    decide +kernel
  have on : joinConditions shouted = [⟨"U", "T.I = U.I"⟩] ∧
      joinConditions whispered = [⟨"u", "t.i = u.i"⟩] := by decide +kernel
  have order : orderItems shouted = ["J"] ∧ orderItems whispered = ["j"] := by decide +kernel
  have score : (Assessment.assess shouted).score = 1 := by decide +kernel
  have distinct : (Assessment.assess shouted).isFound .distinctOperator = true := by decide +kernel
  obtain ⟨conditions, joins, items, scores, found⟩ := extraction_caseless alike
  rw [where_.1, where_.2] at conditions
  rw [on.1, on.2, List.forall₂_cons] at joins
  rw [order.1, order.2] at items
  exact ⟨alike, conditions, joins.1.2, items, scores.symm.trans score,
    (found _).symm.trans distinct⟩

end SqlReview.Query
