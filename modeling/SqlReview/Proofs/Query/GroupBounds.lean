import SqlReview.Proofs.Query.Reading

/-!
Where the list of a clause ends. Whatever parentheses a query has, a list is read from its first
token to the first one outside the list's own parentheses that ends it, and only a parenthesis that
was opened in the list is closed in it. So the loop over the tokens of a query goes forward with
every turn, and comes by every token once.
-/
namespace SqlReview.Query

open Sql

/-- The parentheses that tokens open, less those that they close. -/
def relativeDepth (ts : List Token) : Int :=
  ts.countP (Token.isPunctuation '(') - ts.countP (Token.isPunctuation ')')

def tokensBetween (ts : List Token) (start stop : Nat) : List Token := (ts.take stop).drop start

/-- The state of a list after some of its tokens, or none where the list ends among them. -/
def GroupState.after? (clause : Clause) (state : GroupState) (ts : List Token) :
    Option GroupState :=
  ts.foldlM (fun state t => (state.step clause t).map Prod.snd) state

section Steps

variable {clause : Clause} {state next last : GroupState} {t : Token} {ts front back : List Token}
  {text : Text}

theorem relativeDepth_cons (t : Token) (ts : List Token) :
    relativeDepth (t :: ts) = relativeDepth [t] + relativeDepth ts := by
  simp only [relativeDepth, List.countP_cons, List.countP_nil]
  push_cast
  omega

theorem step_eq_none (closed : state.depth = 0) (ends : endsGroup t = true) :
    state.step clause t = none := by
  simp [GroupState.step, closed, ends]

theorem endsGroup_of_step_eq_none (h : state.step clause t = none) : endsGroup t = true := by
  cases goesOn : endsGroup t with
  | true => rfl
  | false =>
    have closed := Place.depth_of_step_eq_none h
    simp only [GroupState.step, closed, goesOn, if_true, Bool.false_eq_true, if_false] at h
    repeat' split at h
    all_goals cases h

theorem depth_pos_of_step (h : state.step clause t = some (text, next))
    (closes : t.isPunctuation ')' = true) : 0 < state.depth := by
  apply Nat.pos_of_ne_zero
  intro closed
  have ends : endsGroup t = true := by rw [endsGroup, closes, Bool.or_true]
  rw [step_eq_none closed ends] at h
  cases h

theorem depth_of_step (h : state.step clause t = some (text, next)) :
    (next.depth : Int) = state.depth + relativeDepth [t] := by
  rw [Place.depth_step h]
  cases closes : t.isPunctuation ')' with
  | true =>
    have opened := depth_pos_of_step h closes
    have opens : t.isPunctuation '(' = false := by
      simp [Token.isPunctuation, ((TopLevel.isPunctuation_iff t ')').1 closes).2]
    simp only [nest, relativeDepth, List.countP_cons, List.countP_nil, closes, opens,
      Bool.false_eq_true, if_true, if_false]
    omega
  | false =>
    cases opens : t.isPunctuation '(' <;> simp [nest, relativeDepth, closes, opens]

theorem after?_cons (clause : Clause) (state : GroupState) (t : Token) (ts : List Token) :
    state.after? clause (t :: ts) =
      (state.step clause t).bind fun taken => taken.2.after? clause ts := by
  rw [GroupState.after?, List.foldlM_cons]
  cases state.step clause t <;> rfl

theorem after?_append (clause : Clause) (state : GroupState) (front back : List Token) :
    state.after? clause (front ++ back) =
      (state.after? clause front).bind fun next => next.after? clause back := by
  rw [GroupState.after?, List.foldlM_append]
  rfl

/-- The depth of a list is the relative one of its tokens: each decrement undoes an increment. -/
theorem depth_of_after? (h : state.after? clause ts = some next) :
    (next.depth : Int) = state.depth + relativeDepth ts := by
  induction ts generalizing state with
  | nil =>
    cases h
    simp [relativeDepth]
  | cons t ts ih =>
    rw [after?_cons, Option.bind_eq_some_iff] at h
    obtain ⟨⟨text, after⟩, step, h⟩ := h
    rw [relativeDepth_cons, ih h, depth_of_step step, Int.add_assoc]

theorem exists_step (h : state.after? clause (front ++ t :: back) = some last) :
    ∃ mid text next, state.after? clause front = some mid ∧
      mid.step clause t = some (text, next) := by
  rw [after?_append, Option.bind_eq_some_iff] at h
  obtain ⟨mid, reached, h⟩ := h
  rw [after?_cons, Option.bind_eq_some_iff] at h
  obtain ⟨⟨text, next⟩, step, _⟩ := h
  exact ⟨mid, text, next, reached, step⟩

theorem exists_taken (clause : Clause) (state : GroupState) (ts : List Token) :
    ∃ taken last, ts = taken ++ (collectGroup clause state ts).2 ∧
      state.after? clause taken = some last ∧
      ∀ t ∈ (collectGroup clause state ts).2.head?, last.step clause t = none := by
  induction ts generalizing state with
  | nil => exact ⟨[], state, rfl, rfl, nofun⟩
  | cons t ts ih =>
    rw [collectGroup]
    cases step : state.step clause t with
    | none => exact ⟨[], state, rfl, rfl, fun u hu => Option.mem_some.1 hu ▸ step⟩
    | some found =>
      obtain ⟨taken, last, e, reached, ends⟩ := ih found.2
      refine ⟨t :: taken, last, congrArg (List.cons t) e, ?_, ends⟩
      rw [after?_cons, step]
      exact reached

end Steps

section Places

variable {ts : List Token} {t : Token} {start place stop : Nat}

theorem tokensBetween_split (after : start ≤ place) (before : place < stop)
    (there : ts[place]? = some t) : tokensBetween ts start stop =
      tokensBetween ts start place ++ t :: tokensBetween ts (place + 1) stop := by
  obtain ⟨within, rfl⟩ := List.getElem?_eq_some_iff.1 there
  have front : (ts.take stop).take place = ts.take place := by
    rw [List.take_take, Nat.min_eq_left (Nat.le_of_lt before)]
  have inside : place < (ts.take stop).length := by
    rw [List.length_take]
    omega
  have back : (ts.take stop).drop place = ts[place] :: (ts.take stop).drop (place + 1) := by
    rw [List.drop_eq_getElem_cons inside, List.getElem_take]
  have long : start ≤ (ts.take place).length := by
    rw [List.length_take]
    omega
  calc (ts.take stop).drop start
      = ((ts.take stop).take place ++ (ts.take stop).drop place).drop start := by
        rw [List.take_append_drop]
    _ = (ts.take place).drop start ++ ts[place] :: (ts.take stop).drop (place + 1) := by
        rw [front, back, List.drop_append_of_le_length long]

/-- The place where a list ends that is read from a place on, with the state it ends in. -/
theorem exists_stop (clause : Clause) (state : GroupState) (within : start ≤ ts.length) :
    ∃ stop last, start ≤ stop ∧ stop ≤ ts.length ∧
      (collectGroup clause state (ts.drop start)).2 = ts.drop stop ∧
      state.after? clause (tokensBetween ts start stop) = some last ∧
      ∀ t, ts[stop]? = some t → last.step clause t = none := by
  obtain ⟨taken, last, e, reached, ends⟩ := exists_taken clause state (ts.drop start)
  have rest : (collectGroup clause state (ts.drop start)).2 = ts.drop (start + taken.length) := by
    rw [← List.drop_drop, e, List.drop_left, ← e]
  have between : tokensBetween ts start (start + taken.length) = taken := by
    rw [tokensBetween, List.drop_take, Nat.add_sub_cancel_left, e, List.take_left]
  have long := congrArg List.length e
  rw [List.length_append, List.length_drop] at long
  refine ⟨start + taken.length, last, Nat.le_add_right _ _, by omega, rest, ?_, ?_⟩
  · rw [between]
    exact reached
  · intro t there
    apply ends
    rw [rest, List.head?_drop, there]
    rfl

end Places

section Loop

/-- What a turn of the loop over the tokens finds, where it leaves off, and how many parentheses are
open there. -/
structure Turn where
  found : References
  next : Nat
  depth : Nat

def listTurn (ts : List Token) (place : Nat) (clause : Clause) : Turn :=
  let (text, rest) := collectGroup clause .start (ts.drop (place + 1))
  ⟨.ofList clause text, ts.length - rest.length, 0⟩

def turn? (ts : List Token) (place depth : Nat) : Option Turn :=
  ts[place]?.map fun t =>
    if t.isPunctuation '(' || t.isPunctuation ')' then ⟨.empty, place + 1, nest depth t⟩
    else if depth = 0 ∧ t.isKeyword "SELECT" then listTurn ts place .select
    else if depth = 0 ∧ t.isKeyword "FROM" then listTurn ts place .from_
    else ⟨.empty, place + 1, depth⟩

/-- The turns from a place to the end of the tokens, each by the places it goes from and to, and all
that they find. -/
inductive Turns (ts : List Token) : Nat → Nat → List (Nat × Nat) → References → Prop
  | finish {place depth : Nat} (ended : turn? ts place depth = none) :
      Turns ts place depth [] .empty
  | turn {place depth : Nat} {turn : Turn} {later : List (Nat × Nat)} {found : References}
      (taken : turn? ts place depth = some turn)
      (goesOn : Turns ts turn.next turn.depth later found) :
      Turns ts place depth ((place, turn.next) :: later) (turn.found.append found)

variable {ts : List Token} {place depth : Nat} {turn : Turn} {turns turns' : List (Nat × Nat)}
  {found found' : References}

theorem turn?_spec (h : turn? ts place depth = some turn) :
    place < turn.next ∧ turn.next ≤ ts.length ∧
      References.ofTokensFrom depth (ts.drop place) =
        turn.found.append (.ofTokensFrom turn.depth (ts.drop turn.next)) := by
  rw [turn?, Option.map_eq_some_iff] at h
  obtain ⟨t, there, rfl⟩ := h
  obtain ⟨within, rfl⟩ := List.getElem?_eq_some_iff.1 there
  have list (clause : Clause) : place < (listTurn ts place clause).next ∧
      (listTurn ts place clause).next ≤ ts.length ∧
      ts.drop (listTurn ts place clause).next =
        (collectGroup clause .start (ts.drop (place + 1))).2 := by
    obtain ⟨stop, _, after, inside, rest, _⟩ := exists_stop clause .start within
    have next : (listTurn ts place clause).next = stop := by
      simp only [listTurn, rest, List.length_drop]
      omega
    rw [next, rest]
    exact ⟨after, inside, rfl⟩
  rw [List.drop_eq_getElem_cons within, References.ofTokensFrom]
  repeat' split
  · exact ⟨Nat.lt_succ_self place, within, rfl⟩
  · next top =>
    obtain ⟨forward, inside, rest⟩ := list .select
    refine ⟨forward, inside, ?_⟩
    rw [rest, top.1]
    rfl
  · next top =>
    obtain ⟨forward, inside, rest⟩ := list .from_
    refine ⟨forward, inside, ?_⟩
    rw [rest, top.1]
    rfl
  · exact ⟨Nat.lt_succ_self place, within, rfl⟩

theorem length_le_of_turn?_eq_none (h : turn? ts place depth = none) : ts.length ≤ place := by
  rw [turn?, Option.map_eq_none_iff, List.getElem?_eq_none_iff] at h
  exact h

/-- The loop comes to the end from every place: each turn leaves fewer tokens. -/
theorem exists_turns (ts : List Token) (place depth : Nat) :
    ∃ turns, Turns ts place depth turns (.ofTokensFrom depth (ts.drop place)) := by
  induction left : ts.length - place using Nat.strongRecOn generalizing place depth with
  | ind left ih =>
    cases taken : turn? ts place depth with
    | none =>
      rw [List.drop_eq_nil_of_le (length_le_of_turn?_eq_none taken), References.ofTokensFrom]
      exact ⟨[], .finish taken⟩
    | some turn =>
      obtain ⟨forward, inside, found⟩ := turn?_spec taken
      obtain ⟨later, goesOn⟩ := ih (ts.length - turn.next) (by omega) turn.next turn.depth rfl
      rw [found]
      exact ⟨_, .turn taken goesOn⟩

theorem Turns.unique (h : Turns ts place depth turns found)
    (h' : Turns ts place depth turns' found') : turns' = turns ∧ found' = found := by
  induction h generalizing turns' found' with
  | finish ended =>
    cases h' with
    | finish => exact ⟨rfl, rfl⟩
    | turn taken => rw [ended] at taken; cases taken
  | turn taken _ ih =>
    cases h' with
    | finish ended => rw [ended] at taken; cases taken
    | turn taken' goesOn' =>
      rw [taken] at taken'
      cases taken'
      obtain ⟨rfl, rfl⟩ := ih goesOn'
      exact ⟨rfl, rfl⟩

theorem Turns.forward (h : Turns ts place depth turns found) : ∀ turn ∈ turns, turn.1 < turn.2 := by
  induction h with
  | finish => exact List.forall_mem_nil _
  | turn taken _ ih => exact List.forall_mem_cons.2 ⟨(turn?_spec taken).1, ih⟩

theorem Turns.cover (h : Turns ts place depth turns found) (within : place ≤ ts.length) :
    (turns.flatMap fun turn => List.range' turn.1 (turn.2 - turn.1)) =
      List.range' place (ts.length - place) := by
  induction h with
  | finish ended =>
    rw [Nat.sub_eq_zero_of_le (length_le_of_turn?_eq_none ended)]
    rfl
  | @turn place _ turn _ _ taken _ ih =>
    obtain ⟨forward, inside, _⟩ := turn?_spec taken
    have next : turn.next = place + (turn.next - place) := by omega
    have left : ts.length - place = turn.next - place + (ts.length - turn.next) := by omega
    rw [List.flatMap_cons, ih inside, left, ← List.range'_append_1, ← next]

end Loop

/-- A list is read safely from every start in every token list. It ends at the last token or at one
that ends it outside the parentheses opened since the start, and not before. Up to there the depth
is the relative one of the tokens, and above zero wherever a parenthesis closes. The loop over the
tokens goes forward with every turn, and its turns, which find what the query refers to, come by
every token once. -/
theorem collectGroup_bounds (ts : List Token) (clause : Clause) (start : Nat)
    (within : start ≤ ts.length) :
    (∃ stop, start ≤ stop ∧ stop ≤ ts.length ∧
        (collectGroup clause .start (ts.drop start)).2 = ts.drop stop ∧
        (stop = ts.length ∨ ∃ t, ts[stop]? = some t ∧
          relativeDepth (tokensBetween ts start stop) = 0 ∧
          (t.isPunctuation ';' = true ∨ t.isPunctuation ')' = true ∨
            t.isAnyKeyword clauseEnders = true)) ∧
        ∀ place t, start ≤ place → place < stop → ts[place]? = some t →
          ∃ state, GroupState.start.after? clause (tokensBetween ts start place) = some state ∧
            (state.depth : Int) = relativeDepth (tokensBetween ts start place) ∧
            (t.isPunctuation ')' = true → 0 < state.depth) ∧
            (state.depth = 0 → endsGroup t = false)) ∧
      ∃ turns, Turns ts 0 0 turns (References.ofTokens ts) ∧
        (∀ turns' found, Turns ts 0 0 turns' found →
          turns' = turns ∧ found = References.ofTokens ts) ∧
        (∀ turn ∈ turns, turn.1 < turn.2) ∧
        (turns.flatMap fun turn => List.range' turn.1 (turn.2 - turn.1)) =
          List.range ts.length := by
  obtain ⟨stop, last, after, inside, rest, reached, ends⟩ := exists_stop clause .start within
  obtain ⟨turns, whole⟩ := exists_turns ts 0 0
  refine ⟨⟨stop, after, inside, rest, ?_, ?_⟩, turns, whole, fun _ _ h => whole.unique h,
    whole.forward, ?_⟩
  · cases there : ts[stop]? with
    | none => exact .inl (Nat.le_antisymm inside (List.getElem?_eq_none_iff.1 there))
    | some t =>
      have stops := ends t there
      have closed := Place.depth_of_step_eq_none stops
      have depth := depth_of_after? reached
      have marked := endsGroup_of_step_eq_none stops
      rw [endsGroup, Bool.or_eq_true, Bool.or_eq_true, or_assoc] at marked
      refine .inr ⟨t, rfl, ?_, ?_⟩
      · rw [closed] at depth
        simpa [GroupState.start] using depth.symm
      · exact marked.imp_right Or.symm
  · intro place t past before there
    rw [tokensBetween_split past before there] at reached
    obtain ⟨mid, text, next, midway, step⟩ := exists_step reached
    have depth := depth_of_after? midway
    refine ⟨mid, midway, by simpa [GroupState.start] using depth, depth_pos_of_step step, ?_⟩
    intro closed
    cases marked : endsGroup t with
    | false => rfl
    | true =>
      rw [step_eq_none closed marked] at step
      cases step
  · rw [whole.cover (Nat.zero_le _), Nat.sub_zero, List.range_eq_range']

def strayClose : List Token :=
  [⟨.keyword, "SELECT", 0⟩, ⟨.identifier, "f", 1⟩, ⟨.punctuation, "(", 2⟩, ⟨.identifier, "a", 3⟩,
    ⟨.punctuation, ")", 4⟩, ⟨.punctuation, ",", 5⟩, ⟨.identifier, "b", 6⟩, ⟨.punctuation, ")", 7⟩,
    ⟨.keyword, "FROM", 8⟩, ⟨.identifier, "t", 9⟩]

theorem collectGroup_bounds_strayClose :
    1 ≤ strayClose.length ∧
      (collectGroup .select .start (strayClose.drop 1)).2 = strayClose.drop 7 ∧
      relativeDepth (tokensBetween strayClose 1 7) = 0 ∧
      ∃ turns, Turns strayClose 0 0 turns (References.ofTokens strayClose) ∧
        (turns.flatMap fun turn => List.range' turn.1 (turn.2 - turn.1)) = List.range 10 := by
  have within : 1 ≤ strayClose.length := by decide
  obtain ⟨⟨stop, _, inside, rest, ends, _⟩, turns, whole, _, _, cover⟩ :=
    collectGroup_bounds strayClose .select 1 within
  have three : (collectGroup .select .start (strayClose.drop 1)).2.length = 3 := by decide +kernel
  have ten : strayClose.length = 10 := rfl
  obtain rfl : stop = 7 := by
    rw [rest, List.length_drop] at three
    omega
  rcases ends with last | ⟨_, _, level, _⟩
  · cases last
  · exact ⟨within, rest, level, turns, whole, cover⟩

end SqlReview.Query
