import SqlReview.Proofs.Query.TopLevel

/-!
The references of a query read token by token. What a list holds so far and the place in it are all
that the tokens after it depend on, so a query is read in two parts wherever it is cut.
-/
namespace SqlReview.Query

open Sql

namespace References

def empty : References := ⟨[], []⟩

def ofList (clause : Clause) (text : Text) : References :=
  match clause with
  | .select => ⟨[], references text⟩
  | .from_ => ⟨references text, []⟩

def append (r r' : References) : References := ⟨r.tables ++ r'.tables, r.columns ++ r'.columns⟩

variable {r r' r'' : References}

theorem empty_append (r : References) : empty.append r = r := rfl

theorem append_empty (r : References) : r.append empty = r := by
  simp [append, empty]

theorem append_assoc (r r' r'' : References) :
    (r.append r').append r'' = r.append (r'.append r'') := by
  simp [append]

end References

/-- Where a token stands: outside the lists, with parentheses open, or in one, the text of which has
come as far as given. -/
inductive Place where
  | outside (depth : Nat)
  | inside (clause : Clause) (state : GroupState) (text : Text)
deriving Repr, DecidableEq

namespace Place

def afterOutside (depth : Nat) (t : Token) : Place :=
  if t.isPunctuation '(' || t.isPunctuation ')' then .outside (nest depth t)
  else if depth = 0 ∧ t.isKeyword "SELECT" then .inside .select .start []
  else if depth = 0 ∧ t.isKeyword "FROM" then .inside .from_ .start []
  else .outside depth

/-- The place after a token, and what the list refers to that ends before it. -/
def step (place : Place) (t : Token) : References × Place :=
  match place with
  | .outside depth => (.empty, afterOutside depth t)
  | .inside clause state text =>
    match state.step clause t with
    | some (more, next) => (.empty, .inside clause next (text ++ more))
    | none => (.ofList clause text, afterOutside 0 t)

def rest : Place → List Token → References
  | .outside depth, ts => .ofTokensFrom depth ts
  | .inside clause state text, ts =>
    (References.ofList clause (text ++ (collectGroup clause state ts).1)).append
      (.ofTokensFrom 0 (collectGroup clause state ts).2)

def depth : Place → Nat
  | .outside depth => depth
  | .inside _ state _ => state.depth

variable {t : Token} {ts : List Token}

theorem rest_afterOutside (depth : Nat) (t : Token) (ts : List Token) :
    References.ofTokensFrom depth (t :: ts) = (afterOutside depth t).rest ts := by
  rw [References.ofTokensFrom, afterOutside]
  repeat' split
  · rfl
  · next top =>
    rw [top.1]
    rfl
  · next top =>
    rw [top.1]
    rfl
  · rfl

theorem rest_cons (place : Place) (t : Token) (ts : List Token) :
    place.rest (t :: ts) = (place.step t).1.append ((place.step t).2.rest ts) := by
  cases place with
  | outside depth => exact rest_afterOutside depth t ts
  | inside clause state text =>
    rw [rest, collectGroup, step]
    cases state.step clause t with
    | none =>
      rw [← rest_afterOutside, List.append_nil]
    | some found =>
      rw [References.empty_append, rest, List.append_assoc]

theorem depth_afterOutside (depth : Nat) (t : Token) :
    (afterOutside depth t).depth = nest depth t := by
  unfold afterOutside
  repeat' split
  · rfl
  · next top =>
    rw [top.1, TopLevel.nest_of_isKeyword top.2]
    rfl
  · next top =>
    rw [top.1, TopLevel.nest_of_isKeyword top.2]
    rfl
  · next paren _ _ =>
    simp only [Bool.or_eq_true, not_or] at paren
    rw [nest, if_neg paren.1, if_neg paren.2]
    rfl

theorem nest_of_separator (h : (t.isPunctuation ',' || t.isAnyKeyword joinWords) = true)
    (depth : Nat) : nest depth t = depth := by
  rcases Bool.or_eq_true_iff.1 h with comma | join
  · obtain ⟨_, text⟩ := (TopLevel.isPunctuation_iff t ',').1 comma
    simp [nest, Token.isPunctuation, text]
  · obtain ⟨w, _, is⟩ := List.any_eq_true.1 join
    exact TopLevel.nest_of_isKeyword is

theorem nest_of_either {w w' : Text} (h : (t.isKeyword w || t.isKeyword w') = true)
    (depth : Nat) : nest depth t = depth := by
  rcases Bool.or_eq_true_iff.1 h with is | is
  · exact TopLevel.nest_of_isKeyword is
  · exact TopLevel.nest_of_isKeyword is

theorem depth_step {clause : Clause} {state next : GroupState} {more : Text}
    (h : state.step clause t = some (more, next)) : next.depth = nest state.depth t := by
  simp only [GroupState.step] at h
  split at h
  · next top =>
    split at h
    · cases h
    cases clause with
    | select =>
      simp only at h
      split at h
      · next restricted =>
        cases h
        rw [Bool.and_eq_true] at restricted
        exact (nest_of_either restricted.2 _).symm
      · cases h
        rfl
    | from_ =>
      simp only at h
      split at h
      · next on =>
        cases h
        exact (nest_of_either on _).symm
      split at h
      · next parted =>
        cases h
        rw [nest_of_separator parted, top]
      · cases h
        rfl
  · cases h
    rfl

theorem depth_of_step_eq_none {clause : Clause} {state : GroupState}
    (h : state.step clause t = none) : state.depth = 0 := by
  apply Decidable.byContradiction
  intro deep
  simp [GroupState.step, deep] at h

def after (place : Place) (ts : List Token) : Place := ts.foldl (fun p t => (p.step t).2) place

theorem depth_after (place : Place) (ts : List Token) :
    (place.after ts).depth = ts.foldl nest place.depth := by
  induction ts generalizing place with
  | nil => rfl
  | cons t ts ih =>
    have first : (place.step t).2.depth = nest place.depth t := by
      cases place with
      | outside depth => exact depth_afterOutside depth t
      | inside clause state text =>
        rw [step]
        cases e : state.step clause t with
        | none =>
          rw [depth_afterOutside, depth, depth_of_step_eq_none e]
        | some found => exact depth_step e
    rw [after, List.foldl_cons, List.foldl_cons, ← first]
    exact ih _

/-- What is found after some tokens depends on the place after them alone. -/
theorem rest_append (place : Place) (front : List Token) :
    ∃ found : References, ∀ back,
      place.rest (front ++ back) = found.append ((place.after front).rest back) := by
  induction front generalizing place with
  | nil => exact ⟨.empty, fun _ => rfl⟩
  | cons t front ih =>
    obtain ⟨found, e⟩ := ih (place.step t).2
    refine ⟨(place.step t).1.append found, fun back => ?_⟩
    rw [List.cons_append, rest_cons, e, References.append_assoc]
    rfl

/-- A list outside parentheses ends where its end comes, and is not touched by what follows. -/
theorem rest_closed {place : Place} (closed : place.depth = 0)
    (ends : ∀ t ∈ ts.head?, endsGroup t = true) :
    place.rest ts = (place.rest []).append (.ofTokensFrom 0 ts) := by
  have none : References.ofTokensFrom 0 [] = .empty := by
    rw [References.ofTokensFrom]
    rfl
  cases place with
  | outside depth =>
    obtain rfl : depth = 0 := closed
    rw [rest, rest, none, References.empty_append]
  | inside clause state text =>
    obtain ⟨depth, leading, predicate⟩ := state
    obtain rfl : depth = 0 := closed
    rw [rest, rest, TopLevel.collectGroup_ends ends, collectGroup, none, References.append_empty]

end Place

def placeAfter (front : List Token) : Place := (Place.outside 0).after front

theorem depth_placeAfter (front : List Token) : (placeAfter front).depth = front.foldl nest 0 :=
  Place.depth_after _ front

theorem ofTokens_congr {front back back' : List Token}
    (h : (placeAfter front).rest back = (placeAfter front).rest back') :
    References.ofTokens (front ++ back) = References.ofTokens (front ++ back') := by
  obtain ⟨found, e⟩ := Place.rest_append (.outside 0) front
  have read (ts : List Token) : References.ofTokens (front ++ ts) =
      found.append ((placeAfter front).rest ts) := e ts
  rw [read, read, h]

/-- What is found before the end of a list and from there on, where no parentheses are open. -/
theorem ofTokens_append {front back : List Token} (closed : front.foldl nest 0 = 0)
    (ends : ∀ t ∈ back.head?, endsGroup t = true) : References.ofTokens (front ++ back) =
      (References.ofTokens front).append (References.ofTokens back) := by
  obtain ⟨found, e⟩ := Place.rest_append (.outside 0) front
  have read (ts : List Token) : References.ofTokens (front ++ ts) =
      found.append ((placeAfter front).rest ts) := e ts
  have alone := read []
  rw [List.append_nil] at alone
  rw [read, alone, Place.rest_closed ((depth_placeAfter front).trans closed) ends,
    ← References.append_assoc]
  rfl

end SqlReview.Query
