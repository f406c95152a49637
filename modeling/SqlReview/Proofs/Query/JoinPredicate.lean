import SqlReview.Proofs.Query.TableList

/-!
Two joined tables with any predicate. Outside parentheses a predicate brings in no table up to the
first word that a list of tables knows: the name of a function such as LEFT, which is taken for the
beginning of a join, or the FROM of a comparison, which is taken for a clause. From there on its
words are read as tables.
-/
namespace SqlReview.Query

open Sql
open TopLevel (Outside Gives opensPredicate)

section Grammar

/-- The parts of some tokens between those outside parentheses for which the test holds. -/
def cutOutside (p : Token → Bool) : (depth : Nat) → List Token → List (List Token)
  | _, [] => [[]]
  | depth, t :: ts =>
    match cutOutside p (nest depth t) ts with
    | [] => [[t]]
    | first :: others => if depth = 0 ∧ p t = true then [] :: first :: others
      else (t :: first) :: others

def resumes (t : Token) : Bool := t.isAnyKeyword joinWords || t.isKeyword "FROM"

def resumed (ts : List Token) : List (List Token) := (cutOutside resumes 0 ts).tail

def isOperand (t : Token) : Bool := t.text.any fun c => !Text.isBlank c && c != ','

/-- The predicate of a join. Outside its parentheses it has no comma, no predicate of another join
and no clause but what is compared by IS DISTINCT FROM; something comes after each function's name
and each FROM. -/
structure OnPredicate where
  tokens : List Token
  closed : tokens.foldl nest 0 = 0
  goesOn : ∀ t, Outside 0 tokens t → endsGroup t = true → t.isKeyword "FROM" = true
  whole : ∀ t, Outside 0 tokens t → t.isPunctuation ',' = false
  bare : ∀ t, Outside 0 tokens t → opensPredicate .from_ t = false
  operand : ∀ part ∈ (resumed tokens).getLast?, part.any isOperand = true

def OnPredicate.taken (p : OnPredicate) : List Text :=
  (resumed p.tokens).flatMap fun part => references (part.flatMap Token.text)

structure JoinedPair where
  lead : List Token
  outside : lead.foldl nest 0 = 0
  word : Token
  isFrom : word.isKeyword "FROM" = true
  first : NamedTable
  joint : Joint
  second : NamedTable
  on : Token
  opens : opensPredicate .from_ on = true
  predicate : OnPredicate
  rest : List Token
  restEnds : ∀ t ∈ rest.head?, endsGroup t = true

def JoinedPair.tokens (j : JoinedPair) : List Token :=
  j.lead ++ j.word :: (j.first.tokens ++ (j.joint.tokens ++ (j.second.tokens ++
    j.on :: (j.predicate.tokens ++ j.rest))))

end Grammar

section Cut

variable {p : Token → Bool} {depth : Nat} {t : Token} {ts : List Token}

theorem exists_cutOutside (p : Token → Bool) (depth : Nat) (ts : List Token) :
    ∃ first others, cutOutside p depth ts = first :: others := by
  cases ts with
  | nil => exact ⟨[], [], rfl⟩
  | cons t ts =>
    rw [cutOutside]
    split
    · exact ⟨_, _, rfl⟩
    · split
      · exact ⟨_, _, rfl⟩
      · exact ⟨_, _, rfl⟩

theorem cutOutside_cons_pos {first : List Token} {others : List (List Token)}
    (e : cutOutside p (nest 0 t) ts = first :: others) (h : p t = true) :
    cutOutside p 0 (t :: ts) = [] :: first :: others := by
  simp only [cutOutside, e, h, and_self, if_true]

theorem cutOutside_cons_neg {first : List Token} {others : List (List Token)}
    (e : cutOutside p (nest depth t) ts = first :: others) (h : ¬ (depth = 0 ∧ p t = true)) :
    cutOutside p depth (t :: ts) = (t :: first) :: others := by
  simp only [cutOutside, e, if_neg h]

theorem tail_cutOutside_eq_nil_iff :
    (cutOutside p depth ts).tail = [] ↔ ∀ t, Outside depth ts t → p t = false := by
  induction ts generalizing depth with
  | nil => exact ⟨fun _ t ht => absurd ht TopLevel.outside_nil, fun _ => rfl⟩
  | cons t ts ih =>
    obtain ⟨first, others, e⟩ := exists_cutOutside p (nest depth t) ts
    have later := @ih (nest depth t)
    rw [e, List.tail_cons] at later
    rw [TopLevel.forall_outside_cons, ← later]
    by_cases here : depth = 0 ∧ p t = true
    · obtain ⟨rfl, holds⟩ := here
      rw [cutOutside_cons_pos e holds]
      simp [holds]
    · rw [cutOutside_cons_neg e here, List.tail_cons]
      simp only [not_and, Bool.not_eq_true] at here
      exact (and_iff_right here).symm

end Cut

section Reading

variable {clause : Clause} {inside inside' : Bool} {ts more : List Token} {text : Text}

theorem rest_gives (h : Gives clause 0 inside ts text inside') (before : Text) :
    (Place.inside clause ⟨0, false, inside⟩ before).rest (ts ++ more) =
      (Place.inside clause ⟨0, false, inside'⟩ (before ++ text)).rest more := by
  rw [Place.rest, Place.rest, h, List.append_assoc]

theorem rest_leading (leading : Bool) (before : Text) :
    (Place.inside .from_ ⟨0, leading, inside⟩ before).rest ts =
      (Place.inside .from_ ⟨0, false, inside⟩ before).rest ts := by
  rw [Place.rest, Place.rest, TopLevel.collectGroup_tables_leading]

theorem afterOutside_from {t : Token} (h : t.isKeyword "FROM" = true) :
    Place.afterOutside 0 t = .inside .from_ .start [] := by
  rw [Place.afterOutside, TopLevel.isPunctuation_of_keyword h, TopLevel.isPunctuation_of_keyword h,
    TopLevel.isKeyword_select_of_from h, h]
  rfl

/-- A word that makes the reading go on parts what comes after it from the tables so far: as a comma
does, or as the beginning of another list. -/
theorem rest_resumes {t : Token} (h : resumes t = true) (before : Text) :
    (Place.inside .from_ ⟨0, false, inside⟩ before).rest (t :: ts) =
      (References.ofList .from_ before).append
        ((Place.inside .from_ ⟨0, false, false⟩ []).rest ts) := by
  rw [Place.rest_cons, Place.step]
  rcases Bool.or_eq_true_iff.1 h with join | from_
  · have parted (group : Text) : References.ofList .from_ (before ++ [','] ++ group) =
        (References.ofList .from_ before).append (References.ofList .from_ group) := by
      simp only [References.ofList, References.append, List.append_assoc, List.singleton_append,
        references_append_comma, List.append_nil]
    rw [TopLevel.step_joinWord join, References.empty_append, Place.rest, Place.rest, parted,
      References.append_assoc, List.nil_append]
  · have ends : GroupState.step .from_ ⟨0, false, inside⟩ t = none := by
      rw [GroupState.step, TopLevel.endsGroup_of_from from_]
      rfl
    rw [ends, afterOutside_from from_, GroupState.start, rest_leading]

/-- What a predicate adds to a list of tables. By induction on its tokens: those that are passed over
leave the place as it is, and one that makes the reading go on begins a part. -/
theorem rest_predicate {depth : Nat} (closed : ts.foldl nest depth = 0)
    (goesOn : ∀ t, Outside depth ts t → endsGroup t = true → t.isKeyword "FROM" = true)
    (whole : ∀ t, Outside depth ts t → t.isPunctuation ',' = false)
    (bare : ∀ t, Outside depth ts t → opensPredicate .from_ t = false)
    (ends : ∀ t ∈ more.head?, endsGroup t = true) {first : List Token}
    {others : List (List Token)} (e : cutOutside resumes depth ts = first :: others)
    (before : Text) :
    (Place.inside .from_ ⟨depth, false, inside⟩ before).rest (ts ++ more) =
      References.append
        ⟨references (before ++ if inside then [] else first.flatMap Token.text) ++
          others.flatMap fun part => references (part.flatMap Token.text), []⟩
        (.ofTokens more) := by
  induction ts generalizing depth inside before first others with
  | nil =>
    obtain rfl : depth = 0 := closed
    cases e
    have none : collectGroup .from_ ⟨0, false, inside⟩ more = ([], more) :=
      TopLevel.collectGroup_ends ends
    simp only [List.nil_append, Place.rest, none, References.ofList, List.flatMap_nil, ite_self,
      List.append_nil]
    rfl
  | cons t ts ih =>
    obtain ⟨goesOn₀, goesOn⟩ := TopLevel.forall_outside_cons.1 goesOn
    obtain ⟨whole₀, whole⟩ := TopLevel.forall_outside_cons.1 whole
    obtain ⟨bare₀, bare⟩ := TopLevel.forall_outside_cons.1 bare
    obtain ⟨next, later, e'⟩ := exists_cutOutside resumes (nest depth t) ts
    by_cases here : depth = 0 ∧ resumes t = true
    · obtain ⟨rfl, resumes_⟩ := here
      rw [cutOutside_cons_pos e' resumes_] at e
      obtain ⟨rfl, rfl⟩ := List.cons.inj e
      have level : nest 0 t = 0 := by
        rcases Bool.or_eq_true_iff.1 resumes_ with join | from_
        · exact Place.nest_of_separator (by rw [join, Bool.or_true]) 0
        · exact TopLevel.nest_of_isKeyword from_
      rw [List.foldl_cons, level] at closed
      rw [level] at goesOn whole bare e'
      have rest : (Place.inside .from_ ⟨0, false, false⟩ []).rest (ts ++ more) = _ :=
        ih closed goesOn whole bare e' []
      rw [List.cons_append, rest_resumes resumes_, rest, ← References.append_assoc]
      simp [References.ofList, References.append]
    · have apart : depth = 0 → resumes t = false := by
        intro top
        simpa [top] using here
      rw [cutOutside_cons_neg e' here] at e
      obtain ⟨rfl, rfl⟩ := List.cons.inj e
      have step : GroupState.step .from_ ⟨depth, false, inside⟩ t =
          some (if inside then [] else t.text, ⟨nest depth t, false, inside⟩) := by
        apply TopLevel.step_within
        intro top
        have flat := apart top
        rw [resumes, Bool.or_eq_false_iff] at flat
        refine ⟨?_, ?_, fun _ => bare₀ top⟩
        · rw [← Bool.not_eq_true]
          intro closes
          rw [goesOn₀ top closes] at flat
          cases flat.2
        · rw [TopLevel.parts, whole₀ top, flat.1]
          rfl
      rw [List.cons_append, Place.rest_cons, Place.step, step, References.empty_append,
        ih closed goesOn whole bare e']
      cases inside with
      | true => simp
      | false => simp

end Reading

namespace OnPredicate

variable (p : OnPredicate)

theorem taken_eq_nil_iff : p.taken = [] ↔ ∀ t, Outside 0 p.tokens t → resumes t = false := by
  rw [← tail_cutOutside_eq_nil_iff]
  constructor
  · intro none
    apply Decidable.byContradiction
    intro some_
    obtain ⟨front, last, e⟩ := (List.eq_nil_or_concat (resumed p.tokens)).resolve_left some_
    rw [List.concat_eq_append] at e
    have operand := p.operand last (by rw [e, List.getLast?_concat]; rfl)
    obtain ⟨t, ht, filled⟩ := List.any_eq_true.1 operand
    obtain ⟨c, hc, solid⟩ := List.any_eq_true.1 filled
    rw [Bool.and_eq_true, Bool.not_eq_true', bne_iff_ne] at solid
    have refers : references (last.flatMap Token.text) ≠ [] :=
      TopLevel.references_ne_nil (List.mem_flatMap.2 ⟨t, ht, hc⟩) solid.1 solid.2
    rw [taken, e, List.flatMap_append, List.append_eq_nil_iff] at none
    simp only [List.flatMap_cons, List.flatMap_nil, List.append_nil] at none
    exact refers none.2
  · intro none
    change (resumed p.tokens).flatMap _ = []
    rw [resumed, none, List.flatMap_nil]

end OnPredicate

namespace JoinedPair

variable (j : JoinedPair)

theorem gives_front : ∃ text,
    Gives .from_ 0 false (j.first.tokens ++ (j.joint.tokens ++ (j.second.tokens ++ [j.on])))
      text true ∧
    references text = [j.first.reference, j.second.reference] := by
  obtain ⟨padding, pads, joint⟩ := j.joint.gives false
  have on : Gives .from_ 0 false [j.on] [] true :=
    Gives.cons (TopLevel.step_predicate j.opens) Gives.nil
  have all := (Gives.item j.first.item).append (joint.append ((Gives.item j.second.item).append on))
  refine ⟨_, all, ?_⟩
  change references (j.first.text ++ (',' :: padding ++ (j.second.text ++ []))) = _
  rw [List.append_nil, List.cons_append, references_append_comma, references_padding_append pads,
    j.first.references_text, j.second.references_text]
  rfl

theorem ofTokens_word : References.ofTokens (j.word :: (j.first.tokens ++ (j.joint.tokens ++
      (j.second.tokens ++ j.on :: (j.predicate.tokens ++ j.rest))))) =
    References.append ⟨j.first.reference :: j.second.reference :: j.predicate.taken, []⟩
      (.ofTokens j.rest) := by
  obtain ⟨text, gives, refs⟩ := j.gives_front
  obtain ⟨part, others, e⟩ := exists_cutOutside resumes 0 j.predicate.tokens
  have taken : j.predicate.taken =
      others.flatMap fun part => references (part.flatMap Token.text) := by
    rw [OnPredicate.taken, resumed, e, List.tail_cons]
  have parted : j.first.tokens ++ (j.joint.tokens ++ (j.second.tokens ++
      j.on :: (j.predicate.tokens ++ j.rest))) =
      (j.first.tokens ++ (j.joint.tokens ++ (j.second.tokens ++ [j.on]))) ++
        (j.predicate.tokens ++ j.rest) := by
    simp
  rw [References.ofTokens, Place.rest_afterOutside, afterOutside_from j.isFrom, GroupState.start,
    rest_leading, parted, rest_gives gives, rest_predicate j.predicate.closed j.predicate.goesOn
      j.predicate.whole j.predicate.bare j.restEnds e, taken]
  simp [refs]

/-- The tables of a join are its two names, followed by what the words of its predicate are taken
for: the last word of each piece between commas after a word of a join or a FROM that stands outside
of the parentheses in the predicate. They are the two names alone iff the predicate has no such
word. -/
theorem ofTokens_pair :
    References.ofTokens j.tokens =
        ⟨(References.ofTokens j.lead).tables ++ ([j.first.reference, j.second.reference] ++
            j.predicate.taken ++ (References.ofTokens j.rest).tables),
          (References.ofTokens j.lead).columns ++ (References.ofTokens j.rest).columns⟩ ∧
      (j.predicate.taken = [] ↔ ∀ t, Outside 0 j.predicate.tokens t → resumes t = false) ∧
      (Text.words j.first.text).getLast? = some j.first.reference ∧
      (Text.words j.second.text).getLast? = some j.second.reference := by
  have ends : ∀ t ∈ (j.word :: (j.first.tokens ++ (j.joint.tokens ++ (j.second.tokens ++
      j.on :: (j.predicate.tokens ++ j.rest))))).head?, endsGroup t = true := by
    intro t ht
    obtain rfl : j.word = t := Option.some.inj ht
    exact TopLevel.endsGroup_of_from j.isFrom
  refine ⟨?_, j.predicate.taken_eq_nil_iff, j.first.getLast?_words, j.second.getLast?_words⟩
  rw [tokens, ofTokens_append j.outside ends, j.ofTokens_word]
  rfl

end JoinedPair

def comparedPair : JoinedPair where
  lead := [⟨.keyword, "SELECT", 0⟩, ⟨.whitespace, " ", 1⟩, ⟨.identifier, "x", 2⟩,
           ⟨.punctuation, ".", 3⟩, ⟨.identifier, "z", 4⟩, ⟨.whitespace, " ", 5⟩]
  outside := rfl
  word := ⟨.keyword, "FROM", 6⟩
  isFrom := by decide
  first :=
    { tokens := [⟨.whitespace, " ", 7⟩, ⟨.identifier, "x", 8⟩, ⟨.whitespace, " ", 9⟩]
      plain := by decide
      filled := by decide }
  joint := .join ⟨.keyword, "JOIN", 10⟩ (by decide) [] (by decide)
  second :=
    { tokens := [⟨.whitespace, " ", 11⟩, ⟨.identifier, "y", 12⟩, ⟨.whitespace, " ", 13⟩]
      plain := by decide
      filled := by decide }
  on := ⟨.keyword, "ON", 14⟩
  opens := by decide
  predicate :=
    { tokens :=
        [⟨.whitespace, " ", 15⟩, ⟨.identifier, "a", 16⟩, ⟨.whitespace, " ", 17⟩,
         ⟨.keyword, "IS", 18⟩, ⟨.whitespace, " ", 19⟩, ⟨.keyword, "DISTINCT", 20⟩,
         ⟨.whitespace, " ", 21⟩, ⟨.keyword, "FROM", 22⟩, ⟨.whitespace, " ", 23⟩,
         ⟨.keyword, "LEFT", 24⟩, ⟨.punctuation, "(", 25⟩, ⟨.identifier, "b", 26⟩,
         ⟨.punctuation, ",", 27⟩, ⟨.whitespace, " ", 28⟩, ⟨.literal, "2", 29⟩,
         ⟨.punctuation, ")", 30⟩, ⟨.whitespace, " ", 31⟩]
      closed := by decide
      goesOn := by decide
      whole := by decide
      bare := by decide
      operand := by decide }
  rest := [⟨.keyword, "WHERE", 32⟩, ⟨.whitespace, " ", 33⟩, ⟨.identifier, "c", 34⟩]
  restEnds := by decide

theorem JoinedPair.ofTokens_comparedPair :
    (tokenize "SELECT x.z FROM x JOIN y ON a IS DISTINCT FROM LEFT(b, 2) WHERE c").toOption =
        some comparedPair.tokens ∧
      References.ofTokens comparedPair.tokens =
        ⟨["x".toList, "y".toList, "(b".toList, "2)".toList], ["x.z".toList]⟩ ∧
      comparedPair.predicate.taken ≠ [] ∧
      ¬ ∀ t, Outside 0 comparedPair.predicate.tokens t → resumes t = false := by
  obtain ⟨found, none, _, _⟩ := comparedPair.ofTokens_pair
  have taken : comparedPair.predicate.taken = ["(b".toList, "2)".toList] := by decide +kernel
  have some_ : comparedPair.predicate.taken ≠ [] := by
    rw [taken]
    exact List.cons_ne_nil _ _
  refine ⟨by decide +kernel, ?_, some_, fun free => some_ (none.2 free)⟩
  rw [found, taken]
  decide +kernel

/-- What is compared by IS DISTINCT FROM and the arguments of LEFT and RIGHT are taken for tables. -/
theorem predicate_word_taken_for_table :
    (References.ofQuery "SELECT x.a FROM x JOIN y ON x.a IS DISTINCT FROM y.b").tables =
        ["x".toList, "y".toList, "y.b".toList] ∧
      (References.ofQuery "SELECT x.a FROM x JOIN y ON LEFT(x.a, 2) = y.b").tables =
        ["x".toList, "y".toList, "(x.a".toList, "y.b".toList] ∧
      (References.ofQuery "SELECT x.a FROM x JOIN y ON x.a = RIGHT(y.b, 2) WHERE x.c").tables =
        ["x".toList, "y".toList, "(y.b".toList, "2)".toList] ∧
      ¬ ∀ j : JoinedPair, (References.ofTokens j.tokens).tables =
        (References.ofTokens j.lead).tables ++ ([j.first.reference, j.second.reference] ++
          (References.ofTokens j.rest).tables) := by
  refine ⟨by decide +kernel, by decide +kernel, by decide +kernel, ?_⟩
  intro only
  have found := congrArg List.length (only comparedPair)
  revert found
  decide +kernel

end SqlReview.Query
