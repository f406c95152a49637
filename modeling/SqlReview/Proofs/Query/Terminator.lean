import Mathlib.Data.List.Basic
import SqlReview.Query.Facts
import SqlReview.Proofs.Query.Conjuncts
import SqlReview.Proofs.Query.Reading
import SqlReview.Proofs.Sql.Terminator

/-!
What a semicolon at the end of a query changes. It ends a list of tables and columns, but no clause
that is told by words alone: a WHERE, an ON or an ORDER BY that goes on to the end takes it into its
last part.
-/
namespace SqlReview.Query

open Text (terminated EndsSolid)
open Pattern (Steady)
open Sql

section Patterns

open Pattern (WordsOnly)

theorem wordsOnly_keyword {w k : Text} (known : w ∈ reservedWords)
    (spelled : Pattern.isSpelling w k = true) : WordsOnly k :=
  Pattern.wordsOnly_spelled (capitals_of_reserved w known) spelled

theorem wordsOnly_keywords {w w' k : Text} (known : w ∈ reservedWords) (known' : w' ∈ reservedWords)
    (phrase : Pattern.IsPhrase w w' k) : WordsOnly k :=
  phrase.wordsOnly (capitals_of_reserved w known) (capitals_of_reserved w' known')

theorem IsConditionEnd.wordsOnly {k : Text} (h : IsConditionEnd k) : WordsOnly k := by
  rcases h with phrase | phrase | spelled
  · exact wordsOnly_keywords (by decide) (by decide) phrase
  · exact wordsOnly_keywords (by decide) (by decide) phrase
  · exact wordsOnly_keyword (by decide) spelled

theorem IsConnective.wordsOnly {k : Text} (h : IsConnective k) : WordsOnly k :=
  fun c hc => .inl (isWord_of_isConnective h c hc)

theorem IsJoin.wordsOnly {k : Text} (h : IsJoin k) : WordsOnly k := by
  induction h with
  | join spelled => exact wordsOnly_keyword join_reserved spelled
  | lead known spelled _ blank _ ih =>
    exact (wordsOnly_keyword (reserved_of_joinLeads _ known) spelled).append
      ((Pattern.wordsOnly_blank blank).append ih)

theorem IsBoundary.wordsOnly {k : Text} (h : IsBoundary k) : WordsOnly k := by
  rcases h with join | spelled | ending
  · exact join.wordsOnly
  · exact wordsOnly_keyword (by decide) spelled
  · exact IsConditionEnd.wordsOnly ending

theorem steady_keyword {w : Text} (known : w ∈ reservedWords) : Steady (.word w) :=
  (finds_keyword known).2.steady fun _ => wordsOnly_keyword known

theorem steady_keywords_by {w : Text} (known : w ∈ reservedWords) : Steady (.phrase w "BY") :=
  (finds_keywords_by known).2.steady fun _ => wordsOnly_keywords known (by decide)

theorem steady_conditionEnd : Steady conditionEnd :=
  finds_conditionEnd.steady fun _ => IsConditionEnd.wordsOnly

theorem steady_connector : Steady connector :=
  finds_connector.steady fun _ => IsConnective.wordsOnly

theorem steady_joinKeyword : Steady joinKeyword :=
  finds_joinKeyword.steady fun _ => IsJoin.wordsOnly

theorem steady_predicateEnd : Steady predicateEnd :=
  finds_predicateEnd.steady fun _ => IsBoundary.wordsOnly

end Patterns

section Clauses

variable {opening ending : Pattern} {query s : Text} {front : List Text} {last : Text}

/-- The clause goes on to the end of the query. -/
def runsOut (opening ending : Pattern) (query : Text) : Bool :=
  (opening.first? query).any fun found => !ending.occursIn found.after

/-- The last of some entries has a semicolon at its end. It is an entry of its own if the last piece
is blank otherwise. -/
def TakesMark (listed listed' : List Text) : Prop :=
  ∃ front last, listed = front ++ [last].filter (fun piece => !piece.isEmpty) ∧
    listed' = front ++ [terminated last]

theorem TakesMark.ne {listed listed' : List Text} (h : TakesMark listed listed') :
    listed' ≠ listed := by
  obtain ⟨front, last, rfl, rfl⟩ := h
  intro same
  have same := List.append_cancel_left same
  cases last with
  | nil => cases same
  | cons c last => exact Text.terminated_ne _ (List.cons.inj same).1

theorem upTo_terminated {p : Pattern} (h : Steady p) (s : Text) :
    upTo p (terminated s) = if p.occursIn s then upTo p s else terminated (upTo p s) := by
  unfold upTo Pattern.occursIn
  rw [h.first?]
  cases p.first? s <;> rfl

theorem upTo_of_not_occursIn {p : Pattern} (h : p.occursIn s = false) : upTo p s = s := by
  unfold Pattern.occursIn at h
  unfold upTo
  rw [Option.isSome_eq_false_iff, Option.isNone_iff_eq_none] at h
  rw [h]

theorem after_suffix {p : Pattern} {o : Occurrence} (h : o ∈ p.occurrences s) : o.after <:+ s := by
  refine ⟨o.before ++ o.covered, ?_⟩
  rw [List.append_assoc]
  exact (Pattern.text_of_mem_occurrences h).symm

theorem trimmedPieces_terminated (solid : EndsSolid last) (front : List Text) :
    TakesMark (trimmedPieces (front ++ [last])) (trimmedPieces (front ++ [terminated last])) := by
  have filled : (!(terminated (Text.trim last)).isEmpty) = true := by
    unfold terminated
    simp
  refine ⟨trimmedPieces front, Text.trim last, ?_, ?_⟩
  · simp [trimmedPieces]
  · simp only [trimmedPieces, List.map_append, List.map_singleton, Text.trim_terminated solid,
      List.filter_append]
    rw [List.filter_cons, if_pos filled]
    rfl

/-- The parts of a clause, only the last of which takes a semicolon at the end in. -/
def PartsEnd (parts : Text → List Text) : Prop :=
  ∀ clause, EndsSolid clause → ∃ front last, parts clause = front ++ [last] ∧
    parts (terminated clause) = front ++ [terminated last] ∧ EndsSolid last

def clauseItems (opening ending : Pattern) (parts : Text → List Text) (query : Text) : List Text :=
  match (opening.first? query).map fun found => upTo ending found.after with
  | some clause => trimmedPieces (parts clause)
  | none => []

/-- A clause that another one ends stays as it is, and one that runs out takes the semicolon in. -/
theorem clauseItems_terminated {parts : Text → List Text} (ho : Steady opening)
    (he : Steady ending) (hp : PartsEnd parts) (solid : EndsSolid query) :
    (runsOut opening ending query = false →
      clauseItems opening ending parts (terminated query) =
        clauseItems opening ending parts query) ∧
    (runsOut opening ending query = true →
      TakesMark (clauseItems opening ending parts query)
        (clauseItems opening ending parts (terminated query))) := by
  unfold clauseItems runsOut
  rw [ho.first?]
  cases e : opening.first? query with
  | none => exact ⟨fun _ => rfl, fun out => nomatch out⟩
  | some found =>
    have rest : EndsSolid found.after :=
      solid.of_suffix (after_suffix (List.mem_of_head? e))
    have after : found.terminated.after = terminated found.after := rfl
    simp only [Option.map_some, Option.any_some, Bool.not_eq_false', Bool.not_eq_true', after,
      upTo_terminated he]
    constructor
    · intro ended
      rw [if_pos ended]
    · intro out
      obtain ⟨front, last, e, e', ends⟩ := hp found.after rest
      rw [if_neg (by simp [out]), upTo_of_not_occursIn out, e, e']
      exact trimmedPieces_terminated ends front

theorem partsEnd_connector : PartsEnd fun clause => connector.split (Text.trim clause) := by
  intro clause solid
  obtain ⟨front, last, e, e', sub⟩ := steady_connector.split (Text.trim clause)
  have tight : EndsSolid (Text.trim clause) := (Text.tight_trim clause).2
  refine ⟨front, last, e, ?_, tight.of_suffix sub⟩
  simp only [Text.trim_terminated solid]
  exact e'

theorem partsEnd_comma : PartsEnd (Text.pieces ',') := by
  intro clause solid
  obtain ⟨front, last, sub, e⟩ := Text.exists_lastPiece (· == ',') clause
  have whole := e [] (List.forall_mem_nil _)
  rw [List.append_nil, List.append_nil] at whole
  exact ⟨front, last, whole, e [';'] (List.forall_mem_singleton.2 rfl), solid.of_suffix sub⟩

def conditionsRunOut (query : Text) : Bool := runsOut (.word "WHERE") conditionEnd query

def orderRunsOut (query : Text) : Bool := runsOut (.phrase "ORDER" "BY") (.word "LIMIT") query

theorem conditions_terminated (solid : EndsSolid query) :
    (conditionsRunOut query = false → conditions (terminated query) = conditions query) ∧
    (conditionsRunOut query = true →
      TakesMark (conditions query) (conditions (terminated query))) :=
  clauseItems_terminated (steady_keyword (by decide)) steady_conditionEnd partsEnd_connector solid

theorem orderItems_terminated (solid : EndsSolid query) :
    (orderRunsOut query = false → orderItems (terminated query) = orderItems query) ∧
    (orderRunsOut query = true →
      TakesMark (orderItems query) (orderItems (terminated query))) :=
  clauseItems_terminated (steady_keywords_by (by decide)) (steady_keyword (by decide))
    partsEnd_comma solid

end Clauses

section Joins

variable {p : Pattern} {query scope : Text}

theorem firstOutside?_terminated (h : Steady p) (s : Text) :
    firstOutside? p (terminated s) = (firstOutside? p s).map Occurrence.terminated := by
  unfold firstOutside?
  rw [h.occurrences, List.find?_map]
  rfl

theorem withinEnclosing_terminated (depth : Nat) (s : Text) :
    withinEnclosing depth (terminated s) =
      if withinEnclosing depth s = s then terminated s else withinEnclosing depth s := by
  induction s generalizing depth with
  | nil => rfl
  | cons c s ih =>
    have keep (depth : Nat) : c :: withinEnclosing depth (terminated s) =
        if c :: withinEnclosing depth s = c :: s then c :: terminated s
        else c :: withinEnclosing depth s := by
      rw [ih depth]
      by_cases whole : withinEnclosing depth s = s
      · rw [if_pos whole, if_pos (congrArg (c :: ·) whole)]
      · rw [if_neg whole, if_neg fun same => whole (List.cons.inj same).2]
    simp only [Text.terminated_cons, withinEnclosing]
    split
    · exact keep (depth + 1)
    split
    · cases depth with
      | zero => rfl
      | succ depth => exact keep depth
    · exact keep depth

namespace JoinCondition

def terminated (join : JoinCondition) : JoinCondition := ⟨join.table, Text.terminated join.condition⟩

theorem terminated_ne (join : JoinCondition) : join.terminated ≠ join := fun same =>
  Text.terminated_ne _ (congrArg JoinCondition.condition same)

end JoinCondition

def predicateRunsOut (scope : Text) : Bool :=
  (firstOutside? (.word "ON") scope).any fun on => (firstOutside? predicateEnd on.after).isNone

theorem ofScope?_terminated (solid : EndsSolid scope) :
    JoinCondition.ofScope? (terminated scope) = (JoinCondition.ofScope? scope).map fun join =>
      if predicateRunsOut scope then join.terminated else join := by
  unfold JoinCondition.ofScope? predicateRunsOut
  rw [firstOutside?_terminated (steady_keyword (by decide))]
  cases e : firstOutside? (.word "ON".toList) scope with
  | none => rfl
  | some on =>
    have rest : EndsSolid on.after :=
      solid.of_suffix (after_suffix (List.mem_of_find?_eq_some e))
    have before : on.terminated.before = on.before := rfl
    have after : on.terminated.after = terminated on.after := rfl
    simp only [Option.map_some, Option.any_some, before, after,
      firstOutside?_terminated steady_predicateEnd]
    split
    · rfl
    · rcases Option.eq_none_or_eq_some (firstOutside? predicateEnd on.after) with
        none | ⟨boundary, found⟩
      · simp only [none, Option.map_none, Text.trim_terminated rest]
        rfl
      · simp only [found]
        rfl

/-- What a JOIN reads goes on to the end of the query: no parenthesis encloses it. -/
def joinRunsOut (after : Text) : Bool :=
  withinEnclosing 0 after == after && predicateRunsOut after

theorem joinConditions_terminated (solid : EndsSolid query) : joinConditions (terminated query) =
    (joinKeyword.occurrences query).filterMap fun found =>
      (JoinCondition.ofScope? (withinEnclosing 0 found.after)).map fun join =>
        if joinRunsOut found.after then join.terminated else join := by
  unfold joinConditions
  rw [steady_joinKeyword.occurrences, List.filterMap_map]
  apply List.filterMap_congr
  intro found hf
  have rest : EndsSolid found.after := solid.of_suffix (after_suffix hf)
  have after : found.terminated.after = terminated found.after := rfl
  rw [Function.comp_apply, after, withinEnclosing_terminated, joinRunsOut]
  by_cases whole : withinEnclosing 0 found.after = found.after
  · rw [if_pos whole, ofScope?_terminated rest, whole, beq_self_eq_true, Bool.true_and]
  · rw [if_neg whole, beq_eq_false_iff_ne.2 whole, Bool.false_and]
    simp

def joinsRunOut (query : Text) : Bool :=
  (joinKeyword.occurrences query).any fun found =>
    (JoinCondition.ofScope? (withinEnclosing 0 found.after)).isSome && joinRunsOut found.after

theorem filterMap_map_eq_iff {α β : Type} {f : α → Option β} {p : α → Bool} {g : β → β}
    (moves : ∀ b, g b ≠ b) (as : List α) :
    as.filterMap (fun a => (f a).map fun b => if p a then g b else b) = as.filterMap f ↔
      (as.any fun a => (f a).isSome && p a) = false := by
  induction as with
  | nil => exact iff_of_true rfl rfl
  | cons a as ih =>
    rw [List.any_cons, Bool.or_eq_false_iff, ← ih]
    cases e : f a with
    | none => simp [e]
    | some b => cases hp : p a <;> simp [e, hp, moves]

theorem joinConditions_terminated_eq_iff (solid : EndsSolid query) :
    joinConditions (terminated query) = joinConditions query ↔ joinsRunOut query = false := by
  rw [joinConditions_terminated solid]
  exact filterMap_map_eq_iff JoinCondition.terminated_ne _

end Joins

section References

variable {query : Text} {ls : List Lexeme} {place : Place}

/-- Not in the parentheses of a list, as far as its text goes on. -/
def Place.Closed : Place → Prop
  | .outside _ => True
  | .inside _ state _ => state.depth = 0 ∨ state.inPredicate = true

/-- No list of tables or columns has a parenthesis open at the end, as far as the query can be read. -/
def ListsClosed (query : Text) : Prop :=
  ∀ ls, lexemes query = .ok ls → (placeAfter (ls.map Lexeme.token)).Closed

theorem listsClosed_of_lexemes (h : lexemes query = .ok ls)
    (outside : (ls.map Lexeme.token).foldl nest 0 = 0) : ListsClosed query := by
  intro ms e
  rw [h] at e
  obtain rfl := Except.ok.inj e
  rw [← depth_placeAfter] at outside
  cases place : placeAfter (ls.map Lexeme.token) with
  | outside depth => trivial
  | inside clause state text =>
    rw [place] at outside
    exact .inl outside

def terminator : Lexeme := .symbol [';']

theorem endsGroup_terminator : endsGroup terminator.token = true := by decide

theorem rest_outside_terminator (depth : Nat) :
    (Place.outside depth).rest [terminator.token] = (Place.outside depth).rest [] := by
  have keyword (w : Text) : terminator.token.isKeyword w = false := rfl
  rw [Place.rest, Place.rest_afterOutside]
  simp only [Place.afterOutside, keyword, Bool.false_eq_true, and_false, if_false]
  rfl

/-- A semicolon ends a list as the end of the query does, and adds nothing to a join's predicate. -/
theorem rest_terminator (closed : place.Closed) :
    place.rest [terminator.token] = place.rest [] := by
  cases place with
  | outside depth => exact rest_outside_terminator depth
  | inside clause state text =>
    have nothing : References.ofTokensFrom 0 [terminator.token] = References.ofTokensFrom 0 [] :=
      rest_outside_terminator 0
    by_cases top : state.depth = 0
    · have ends : state.step clause terminator.token = none := by
        simp [GroupState.step, top, endsGroup_terminator]
      simp only [Place.rest, collectGroup, ends, nothing]
    · have inside : state.inPredicate = true := closed.resolve_left top
      have adds : ∃ next, state.step clause terminator.token = some ([], next) :=
        ⟨_, by simp only [GroupState.step, top, inside, if_false, if_true]; rfl⟩
      obtain ⟨next, adds⟩ := adds
      simp only [Place.rest, collectGroup, adds, List.append_nil]

theorem ofQuery_terminated (closed : EndsClosed query) (lists : ListsClosed query) :
    References.ofQuery (terminated query) = References.ofQuery query := by
  cases e : lexemes query with
  | error fault =>
    obtain ⟨fault', e'⟩ := lexemes_fails ⟨fault, e⟩
    unfold References.ofQuery tokenize
    rw [e, e']
    rfl
  | ok ls =>
    have read := ofTokens_congr (rest_terminator (lists ls e))
    rw [List.append_nil] at read
    rw [ofQuery_of_lexemes e, ofQuery_of_lexemes (lexemes_terminated closed e), List.map_append]
    exact read

end References

section Facts

variable {query : Text}

theorem conditions_terminated_eq_iff (solid : EndsSolid query) :
    conditions (terminated query) = conditions query ↔ conditionsRunOut query = false := by
  obtain ⟨ended, out⟩ := conditions_terminated solid
  refine ⟨fun same => ?_, ended⟩
  rw [← Bool.not_eq_true]
  exact fun runs => (out runs).ne same

theorem orderItems_terminated_eq_iff (solid : EndsSolid query) :
    orderItems (terminated query) = orderItems query ↔ orderRunsOut query = false := by
  obtain ⟨ended, out⟩ := orderItems_terminated solid
  refine ⟨fun same => ?_, ended⟩
  rw [← Bool.not_eq_true]
  exact fun runs => (out runs).ne same

/-- A query tells the same with a semicolon if no clause that is told by words goes on to its end. -/
theorem extract_terminated_eq_iff (solid : EndsSolid query) (closed : EndsClosed query)
    (lists : ListsClosed query) : Facts.extract (terminated query) = Facts.extract query ↔
      conditionsRunOut query = false ∧ joinsRunOut query = false ∧ orderRunsOut query = false := by
  rw [← conditions_terminated_eq_iff solid, ← joinConditions_terminated_eq_iff solid,
    ← orderItems_terminated_eq_iff solid]
  simp only [Facts.extract, ofQuery_terminated closed lists, Facts.mk.injEq, true_and]

end Facts

end SqlReview.Query
