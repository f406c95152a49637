import SqlReview.Proofs.Index.Names
import SqlReview.Proofs.Query.Terminator

/-!
What a semicolon at the end of a query does to the recommended indexes. The columns of conditions and
joins are found as before, but a sort item takes the semicolon in, and so does the statement for it.
-/
namespace SqlReview.Index

open Query
open Text (terminated)

section Columns

theorem wordRuns_terminated (s : Text) :
    wordRuns (terminated s) = (wordRuns s).map fun run => (run.1, terminated run.2) := by
  induction s with
  | nil => decide
  | cons c s ih =>
    rw [Text.terminated_cons, wordRuns, wordRuns, Pattern.inWord_terminated, ih]
    split
    · cases Pattern.inWord s.head? with
      | false => rfl
      | true =>
        cases wordRuns s with
        | nil => rfl
        | cons run more => rfl
    · rfl

theorem startsOperator_terminated (rest : Text) :
    (operators.any fun op => op.isPrefixOf (Text.trimLeft (terminated rest))) =
      operators.any fun op => op.isPrefixOf (Text.trimLeft rest) := by
  have free : ∀ op ∈ operators, Sql.isFreeOfStops op = true := by decide
  rw [Text.trimLeft_terminated, Bool.eq_iff_iff, List.any_eq_true, List.any_eq_true]
  refine exists_congr fun op => and_congr_right fun known => ?_
  rw [terminated, Sql.isPrefixOf_append_stops (free op known) Sql.stops_terminator]

theorem conditionColumn?_terminated (condition : Text) :
    conditionColumn? (terminated condition) = conditionColumn? condition := by
  unfold conditionColumn?
  rw [wordRuns_terminated, List.findSome?_map]
  congr 1
  funext run
  simp only [Function.comp_apply, startsOperator_terminated]

theorem qualified?_terminated (s : Text) : qualified? (terminated s) =
    (qualified? s).map fun name => (name.1, name.2.1, terminated name.2.2) := by
  simp only [qualified?, Text.takeWhile_terminated (p := Text.isWord) (by decide),
    Text.dropWhile_terminated (p := Text.isWord) (by decide)]
  generalize s.takeWhile Text.isWord = table
  generalize s.dropWhile Text.isWord = rest
  cases rest with
  | nil => rfl
  | cons c rest =>
    rw [Text.terminated_cons]
    by_cases dot : c = '.'
    · subst dot
      simp only [Text.takeWhile_terminated (p := Text.isWord) (by decide),
        Text.dropWhile_terminated (p := Text.isWord) (by decide)]
      split <;> rfl
    · simp [dot]

theorem joinSides?_terminated (condition : Text) :
    joinSides? (terminated condition) = joinSides? condition := by
  unfold joinSides?
  rw [wordRuns_terminated, List.findSome?_map]
  congr 1
  funext run
  have whole : run.1 ++ terminated run.2 = terminated (run.1 ++ run.2) := by
    simp [terminated]
  simp only [Function.comp_apply, whole, qualified?_terminated]
  cases qualified? (run.1 ++ run.2) with
  | none => rfl
  | some name =>
    simp only [Option.map_some, Text.trimLeft_terminated]
    cases Text.trimLeft name.2.2 with
    | nil => rfl
    | cons c right =>
      rw [Text.terminated_cons]
      by_cases equal : c = '='
      · subst equal
        simp only [Text.trimLeft_terminated, qualified?_terminated, Option.map_map]
        rfl
      · simp [equal]

theorem stripLast?_terminated {word : Text} (known : word ∈ Sql.reservedWords) (item : Text) :
    stripLast? word (terminated item) = none := by
  obtain ⟨filled, capital⟩ := Sql.capitals_of_reserved word known
  unfold stripLast?
  rw [if_neg]
  rintro ⟨short, spelled, _⟩
  -- the last of the characters that would have to spell the word is the semicolon
  have mark : ';' ∈ ((terminated item).drop ((terminated item).length - word.length)).take
      word.length := by
    have pos : 0 < word.length := List.length_pos_iff.2 filled
    have length : (terminated item).length = item.length + 1 := List.length_append
    have kept : (terminated item).length - word.length ≤ item.length := by omega
    rw [List.take_of_length_le (by rw [List.length_drop]; omega), Text.drop_terminated kept]
    exact List.mem_append_right _ (List.mem_singleton_self _)
  have inside := (Pattern.isWord_of_spells capital spelled).1 ';' mark
  exact absurd inside (by decide)

theorem sortColumn_terminated (item : Text) : sortColumn (terminated item) = terminated item := by
  have ascending : stripLast? "ASC" (terminated item) = none :=
    stripLast?_terminated (by decide) item
  have descending : stripLast? "DESC" (terminated item) = none :=
    stripLast?_terminated (by decide) item
  simp only [sortColumn, ascending, descending]
  rfl

end Columns

section Pairs

variable {facts facts' : Facts}

theorem firsts_map {α β κ : Type} [DecidableEq κ] (key : β → κ) (f : α → β) (as : List α) :
    firsts key (as.map f) = (firsts (fun a => key (f a)) as).map f := by
  induction as with
  | nil => rfl
  | cons a as ih =>
    rw [List.map_cons, firsts, firsts, ih, List.map_cons, List.filter_map]
    rfl

def candidatePairs (facts : Facts) : List (Text × Text) :=
  (facts.whereConditions.flatMap fun condition =>
      (conditionColumn? condition).toList.flatMap fun column =>
        facts.tables.map fun table => (table, column)) ++
    (facts.joinConditions.flatMap fun join =>
      (joinSides? join.condition).toList.flatMap fun sides => [sides.1, sides.2]) ++
    facts.orderItems.flatMap fun item => facts.tables.map fun table => (table, sortColumn item)

theorem map_pair_stream (facts : Facts) :
    (stream facts).map Candidate.pair = candidatePairs facts := by
  simp only [stream, candidatePairs, List.map_append, List.map_flatMap, List.map_map]
  rfl

theorem pairs_eq (facts : Facts) : (Recommendations.ofFacts facts).pairs =
    (firsts Prod.fst (candidatePairs facts)).flatMap fun lead =>
      (firsts id (candidatePairs facts)).filter fun p => p.1 = lead.1 := by
  have tables : (fun c : Candidate => c.pair.1) = Candidate.table := rfl
  have pairs : (fun c : Candidate => id c.pair) = Candidate.pair := rfl
  rw [Recommendations.pairs_ofFacts, Recommendations.listed, ← map_pair_stream, firsts_map,
    firsts_map, tables, pairs, List.map_flatMap, List.flatMap_map]
  simp only [List.filter_map]
  rfl

theorem mem_pairs_iff {p : Text × Text} :
    p ∈ (Recommendations.ofFacts facts).pairs ↔ p ∈ candidatePairs facts := by
  have tables : p.1 ∈ (firsts Prod.fst (candidatePairs facts)).map Prod.fst ↔
      p.1 ∈ (candidatePairs facts).map Prod.fst := mem_map_firsts
  have same : p ∈ (firsts id (candidatePairs facts)).map id ↔ p ∈ (candidatePairs facts).map id :=
    mem_map_firsts
  rw [List.map_id, List.map_id] at same
  rw [pairs_eq, List.mem_flatMap]
  constructor
  · rintro ⟨lead, _, hp⟩
    exact same.1 (List.mem_of_mem_filter hp)
  · intro hp
    obtain ⟨lead, hl, e⟩ := List.mem_map.1 (tables.2 (List.mem_map_of_mem hp))
    exact ⟨lead, hl, List.mem_filter.2 ⟨same.2 hp, decide_eq_true e.symm⟩⟩

theorem createStatements_congr (h : candidatePairs facts = candidatePairs facts') :
    (Recommendations.ofFacts facts).createStatements =
      (Recommendations.ofFacts facts').createStatements := by
  rw [Recommendations.createStatements_ofFacts, Recommendations.createStatements_ofFacts, pairs_eq,
    pairs_eq, h]

end Pairs

section Terminated

variable {query : Text}

/-- A last entry with a semicolon, or of nothing else, gives the same as the entry without it. -/
theorem flatMap_takesMark {α : Type} {f : Text → List α} {listed listed' : List Text}
    (h : TakesMark listed listed') (empty : f [] = []) (same : ∀ s, f (terminated s) = f s) :
    listed'.flatMap f = listed.flatMap f := by
  obtain ⟨front, last, rfl, rfl⟩ := h
  rw [List.flatMap_append, List.flatMap_append, List.flatMap_singleton, same]
  cases last with
  | nil => rw [empty]; rfl
  | cons c last => exact congrArg _ (List.append_nil _).symm

theorem flatMap_conditions_terminated (solid : Text.EndsSolid query) (tables : List Text) :
    ((conditions (terminated query)).flatMap fun condition =>
      (conditionColumn? condition).toList.flatMap fun column =>
        tables.map fun table => (table, column)) =
    (conditions query).flatMap fun condition =>
      (conditionColumn? condition).toList.flatMap fun column =>
        tables.map fun table => (table, column) := by
  obtain ⟨ended, out⟩ := conditions_terminated solid
  cases runs : conditionsRunOut query with
  | false => rw [ended runs]
  | true => exact flatMap_takesMark (out runs) rfl fun s => by rw [conditionColumn?_terminated]

theorem flatMap_filterMap_map {α β γ : Type} {f : α → Option β} {g : α → β → β} {h : β → List γ}
    (same : ∀ a b, h (g a b) = h b) (as : List α) :
    (as.filterMap fun a => (f a).map (g a)).flatMap h = (as.filterMap f).flatMap h := by
  induction as with
  | nil => rfl
  | cons a as ih =>
    cases e : f a with
    | none => simp [e, ih]
    | some b => simp [e, ih, same]

theorem flatMap_joinConditions_terminated (solid : Text.EndsSolid query) :
    ((joinConditions (terminated query)).flatMap fun join =>
      (joinSides? join.condition).toList.flatMap fun sides => [sides.1, sides.2]) =
    (joinConditions query).flatMap fun join =>
      (joinSides? join.condition).toList.flatMap fun sides => [sides.1, sides.2] := by
  have sides (join : JoinCondition) :
      joinSides? join.terminated.condition = joinSides? join.condition :=
    joinSides?_terminated join.condition
  rw [joinConditions_terminated solid]
  apply flatMap_filterMap_map
  intro found join
  split
  · rw [sides]
  · rfl

/-- Only sort items can put the semicolon into a column. -/
theorem candidatePairs_terminated (solid : Text.EndsSolid query) (closed : Sql.EndsClosed query)
    (lists : ListsClosed query) (ended : orderRunsOut query = false) :
    candidatePairs (Facts.extract (terminated query)) = candidatePairs (Facts.extract query) := by
  have items := (orderItems_terminated solid).1 ended
  simp only [candidatePairs, Facts.extract, ofQuery_terminated closed lists, items,
    flatMap_conditions_terminated solid, flatMap_joinConditions_terminated solid]

theorem exists_mem_candidatePairs (solid : Text.EndsSolid query) (runs : orderRunsOut query = true) :
    ∃ column, ∀ table ∈ (Facts.extract (terminated query)).tables,
      (table, terminated column) ∈ candidatePairs (Facts.extract (terminated query)) := by
  obtain ⟨front, last, _, items⟩ := (orderItems_terminated solid).2 runs
  refine ⟨last, fun table known => List.mem_append_right _ ?_⟩
  have item : terminated last ∈ (Facts.extract (terminated query)).orderItems := by
    change terminated last ∈ orderItems (terminated query)
    rw [items]
    exact List.mem_append_right _ (List.mem_singleton_self _)
  refine List.mem_flatMap.2 ⟨_, item, List.mem_map.2 ⟨table, known, ?_⟩⟩
  rw [sortColumn_terminated]

/-- A semicolon after a query that ends in a word, a number or a closing parenthesis changes nothing
just if no WHERE, ON or ORDER BY goes on to the end, as long as no list of tables or columns has a
parenthesis open there. A clause that goes on takes the semicolon into the last of its parts and
leaves the others. The columns of conditions and joins stay, so the statements are the same unless
the sort items take the semicolon in; then each table has an index recommended on a column that ends
in it. -/
theorem extract_terminated (solid : Text.EndsSolid query) (closed : Sql.EndsClosed query) :
    let facts := Facts.extract query
    let facts' := Facts.extract (terminated query)
    (conditionsRunOut query = false → facts'.whereConditions = facts.whereConditions) ∧
      (conditionsRunOut query = true → TakesMark facts.whereConditions facts'.whereConditions) ∧
      (orderRunsOut query = false → facts'.orderItems = facts.orderItems) ∧
      (orderRunsOut query = true → TakesMark facts.orderItems facts'.orderItems) ∧
      facts'.joinConditions = (joinKeyword.occurrences query).filterMap (fun found =>
        (JoinCondition.ofScope? (withinEnclosing 0 found.after)).map fun join =>
          if joinRunsOut found.after then join.terminated else join) ∧
      (orderRunsOut query = true → ∃ column, ∀ table ∈ facts'.tables,
        createStatement (nameOf (table, terminated column)) table (terminated column) ∈
          (Recommendations.ofFacts facts').createStatements) ∧
      (ListsClosed query →
        facts'.tables = facts.tables ∧ facts'.columns = facts.columns ∧
        (facts' = facts ↔ conditionsRunOut query = false ∧ joinsRunOut query = false ∧
          orderRunsOut query = false) ∧
        (orderRunsOut query = false → (Recommendations.ofFacts facts').createStatements =
          (Recommendations.ofFacts facts).createStatements)) := by
  intro facts facts'
  refine ⟨(conditions_terminated solid).1, (conditions_terminated solid).2,
    (orderItems_terminated solid).1, (orderItems_terminated solid).2,
    joinConditions_terminated solid, ?_, ?_⟩
  · intro runs
    obtain ⟨column, listed⟩ := exists_mem_candidatePairs solid runs
    refine ⟨column, fun table known => ?_⟩
    rw [Recommendations.createStatements_ofFacts]
    exact List.mem_map_of_mem (mem_pairs_iff.2 (listed table known))
  · intro lists
    have references := ofQuery_terminated closed lists
    exact ⟨congrArg References.tables references, congrArg References.columns references,
      extract_terminated_eq_iff solid closed lists,
      fun ended => createStatements_congr (candidatePairs_terminated solid closed lists ended)⟩

def sorted : Text := "SELECT a FROM t ORDER BY a"

def limited : Text := "SELECT a FROM t WHERE (b = 1) LIMIT 5"

theorem lexemes_sorted : Sql.lexemes sorted = .ok [.word "SELECT", .blank ' ', .word "a", .blank ' ',
    .word "FROM", .blank ' ', .word "t", .blank ' ', .word "ORDER", .blank ' ', .word "BY",
    .blank ' ', .word "a"] := Sql.lexemes_of_readsAs (by decide)

theorem lexemes_limited : Sql.lexemes limited = .ok [.word "SELECT", .blank ' ', .word "a",
    .blank ' ', .word "FROM", .blank ' ', .word "t", .blank ' ', .word "WHERE", .blank ' ',
    .symbol ['('], .word "b", .blank ' ', .symbol ['='], .blank ' ', .number "1", .symbol [')'],
    .blank ' ', .word "LIMIT", .blank ' ', .number "5"] :=
  Sql.lexemes_of_readsAs (by decide)

theorem closed_sorted : Text.EndsSolid sorted ∧ Sql.EndsClosed sorted ∧ ListsClosed sorted :=
  ⟨by decide, Sql.endsClosed_of_lexemes lexemes_sorted (by decide),
    listsClosed_of_lexemes lexemes_sorted (by decide)⟩

theorem extract_terminated_limited :
    Facts.extract (terminated limited) = Facts.extract limited ∧
      (Recommendations.ofFacts (Facts.extract (terminated limited))).createStatements =
        ["CREATE INDEX idx_t_b ON t (b);".toList] ∧
      TakesMark ["a".toList] ["a;".toList] := by
  have closed := Sql.endsClosed_of_lexemes lexemes_limited (by decide)
  have lists := listsClosed_of_lexemes lexemes_limited (by decide)
  have ended : conditionsRunOut limited = false ∧ joinsRunOut limited = false ∧
      orderRunsOut limited = false := by decide
  obtain ⟨_, _, _, _, _, _, same⟩ := extract_terminated (by decide) closed
  obtain ⟨_, _, facts, statements⟩ := same lists
  obtain ⟨solid', closed', _⟩ := closed_sorted
  obtain ⟨_, _, _, items, _⟩ := extract_terminated solid' closed'
  have runs : orderRunsOut sorted = true := by decide
  have listed : (Facts.extract sorted).orderItems = ["a".toList] ∧
      (Facts.extract (terminated sorted)).orderItems = ["a;".toList] := by decide
  refine ⟨facts.2 ended, (statements ended.2.2).trans (by decide +kernel), ?_⟩
  rw [← listed.1, ← listed.2]
  exact items runs

/-- The semicolon becomes a part of a column, and of the statement for its index. -/
theorem terminator_in_column : (Facts.extract sorted).orderItems = ["a".toList] ∧
    (Facts.extract (terminated sorted)).orderItems = ["a;".toList] ∧
    (Recommendations.ofFacts (Facts.extract sorted)).createStatements =
      ["CREATE INDEX idx_t_a ON t (a);".toList] ∧
    (Recommendations.ofFacts (Facts.extract (terminated sorted))).createStatements =
      ["CREATE INDEX idx_t_a; ON t (a;);".toList] ∧
    ¬ ∀ query, Text.EndsSolid query → Sql.EndsClosed query → ListsClosed query →
      Facts.extract (terminated query) = Facts.extract query := by
  have before : (Facts.extract sorted).orderItems = ["a".toList] := by decide
  have after : (Facts.extract (terminated sorted)).orderItems = ["a;".toList] := by decide
  refine ⟨before, after, by decide +kernel, by decide +kernel, ?_⟩
  intro same
  obtain ⟨solid, closed, lists⟩ := closed_sorted
  rw [same sorted solid closed lists, before] at after
  exact absurd after (by decide)

end Terminated

end SqlReview.Index
