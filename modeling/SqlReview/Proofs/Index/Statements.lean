import SqlReview.Proofs.Index.ComparedColumn
import SqlReview.Proofs.Index.Sorting

/-!
What stands in the statements for a query. The template takes any table and column, so a statement
is ready to run just if both are names. The columns of conditions and joins are runs of word
characters that may begin with a digit, a table is all that stands between blanks and commas, and a
sort item keeps all but its direction.
-/
namespace SqlReview

namespace Query

section Tables

variable {name group : Text}

theorem solid_of_mem_references (h : name ∈ references group) :
    name ≠ [] ∧ ∀ c ∈ name, Text.isBlank c = false ∧ c ≠ ',' := by
  obtain ⟨piece, listed, last⟩ := List.mem_filterMap.1 h
  have word : name ∈ Text.words piece := List.mem_of_getLast? last
  refine ⟨Text.ne_nil_of_mem_words word, fun c hc => ⟨Text.solid_of_mem_words word c hc, ?_⟩⟩
  have free := Text.not_mark_of_mem_cut listed c (Text.mem_of_mem_words word hc)
  simpa using free

theorem exists_group_of_mem_tables {depth : Nat} {ts : List Sql.Token} {table : Text}
    (h : table ∈ (References.ofTokensFrom depth ts).tables) :
    ∃ group, table ∈ references group := by
  fun_induction References.ofTokensFrom depth ts with
  | case1 => cases h
  | case2 depth t ts parenthesis ih => exact ih h
  | case3 depth t ts parenthesis select later ih => exact ih h
  | case4 depth t ts parenthesis select from_ later ih =>
    rcases List.mem_append.1 h with here | there
    · exact ⟨_, here⟩
    · exact ih there
  | case5 depth t ts parenthesis select from_ ih => exact ih h

theorem solid_of_mem_tables {query table : Text} (h : table ∈ (Facts.extract query).tables) :
    table ≠ [] ∧ ∀ c ∈ table, Text.isBlank c = false ∧ c ≠ ',' := by
  change table ∈ (References.ofQuery query).tables at h
  unfold References.ofQuery at h
  split at h
  · obtain ⟨group, listed⟩ := exists_group_of_mem_tables h
    exact solid_of_mem_references listed
  · cases h

end Tables

theorem tight_of_mem_orderItems {query item : Text} (h : item ∈ orderItems query) :
    item ≠ [] ∧ Text.Tight item ∧ ',' ∉ item := by
  unfold orderItems at h
  split at h
  · obtain ⟨trimmed, filled⟩ := List.mem_filter.1 h
    obtain ⟨piece, listed, rfl⟩ := List.mem_map.1 trimmed
    refine ⟨by simpa using filled, Text.tight_trim piece, fun comma => ?_⟩
    have free := Text.not_mark_of_mem_cut listed ',' (Text.mem_of_mem_trim comma)
    cases free
  · cases h

end Query

namespace Index

open Query

section Runs

variable {run rest s column condition : Text}

def IsRun (s : Text) : Prop := s ≠ [] ∧ ∀ c ∈ s, Text.isWord c = true

theorem isRun_of_mem_wordRuns (h : (run, rest) ∈ wordRuns s) : IsRun run := by
  fun_induction wordRuns s generalizing run rest with
  | case1 => cases h
  | case2 c s word first more after inside _ ih =>
    rw [inside] at ih
    rcases List.mem_cons.1 h with here | there
    · obtain ⟨rfl, rfl⟩ := Prod.mk.inj here
      exact ⟨List.cons_ne_nil _ _, List.forall_mem_cons.2 ⟨word, (ih List.mem_cons_self).2⟩⟩
    · exact ih (List.mem_cons_of_mem _ there)
  | case3 c s word none ih =>
    rcases List.mem_cons.1 h with here | there
    · obtain ⟨rfl, rfl⟩ := Prod.mk.inj here
      exact ⟨List.cons_ne_nil _ _, List.forall_mem_singleton.2 word⟩
    · exact ih there
  | case4 c s mark ih => exact ih h

theorem isRun_conditionColumn? (h : conditionColumn? condition = some column) : IsRun column := by
  obtain ⟨⟨run, rest⟩, listed, found⟩ := List.exists_of_findSome?_eq_some h
  have whole := isRun_of_mem_wordRuns listed
  dsimp only at found
  split at found
  · rwa [← Option.some.inj found]
  · have cut := cutsOff_of_eq_some found
    obtain ⟨filled, op, _, tail, rfl⟩ := cut.before
    exact ⟨filled, fun c hc => whole.2 c (by simp [hc])⟩

theorem isRun_qualified? {table rest : Text} (h : qualified? s = some (table, column, rest)) :
    IsRun table ∧ IsRun column := by
  have word (t : Text) : ∀ c ∈ t.takeWhile Text.isWord, Text.isWord c = true :=
    List.all_eq_true.1 List.all_takeWhile
  unfold qualified? at h
  split at h
  · dsimp only at h
    split at h
    · cases h
    · next filled =>
      simp only [Option.some.injEq, Prod.mk.injEq] at h
      obtain ⟨rfl, rfl, _⟩ := h
      simp only [Bool.or_eq_true, List.isEmpty_iff, not_or] at filled
      exact ⟨⟨filled.1, word _⟩, filled.2, word _⟩
  · cases h

theorem isRun_joinSides? {left right : Text × Text}
    (h : joinSides? condition = some (left, right)) :
    (IsRun left.1 ∧ IsRun left.2) ∧ IsRun right.1 ∧ IsRun right.2 := by
  obtain ⟨⟨run, rest⟩, _, found⟩ := List.exists_of_findSome?_eq_some h
  dsimp only at found
  split at found
  · cases found
  · next table column after first =>
    split at found
    · obtain ⟨second, other, same⟩ := Option.map_eq_some_iff.1 found
      obtain ⟨rfl, rfl⟩ := Prod.mk.inj same
      exact ⟨isRun_qualified? first, isRun_qualified? other⟩
    · cases found

end Runs

theorem tight_sortColumn {query item : Text} (h : item ∈ orderItems query) :
    sortColumn item ≠ [] ∧ Text.Tight (sortColumn item) ∧ ',' ∉ sortColumn item := by
  obtain ⟨filled, tight, free⟩ := tight_of_mem_orderItems h
  rcases sortColumn_spec item with same | ⟨gap, run, text, apart, blank, _, last⟩
  · rw [same]
    exact ⟨filled, tight, free⟩
  · have start : sortColumn item ≠ [] := by
      intro none
      rw [none, List.nil_append] at text
      obtain ⟨c, gap, rfl⟩ := List.exists_cons_of_ne_nil apart
      have solid := tight.1 c (by rw [text]; rfl)
      rw [blank c List.mem_cons_self] at solid
      cases solid
    refine ⟨start, ⟨fun c hc => tight.1 c ?_, last⟩, fun comma => free ?_⟩
    · rw [text, List.head?_append_of_ne_nil _ start]
      exact hc
    · rw [text]
      exact List.mem_append_left _ comma

section Names

variable {s t i c : Text} {p : Text × Text}

def startsName (s : Text) : Bool := s.head?.any fun c => Text.isAlphabetic c || c == '_'

/-- A run of word characters that begins with a letter or an underscore, or several of them with a
dot between each two. -/
def IsName (s : Text) : Prop :=
  ∀ part ∈ Text.pieces '.' s, startsName part = true ∧ ∀ c ∈ part, Text.isWord c = true

instance : DecidablePred IsName := fun s =>
  decidable_of_iff ((Text.pieces '.' s).all fun part => startsName part && part.all Text.isWord)
    (by simp [IsName])

/-- A run of word characters fails to be a name by its first character only. -/
theorem IsRun.isName_iff (run : IsRun s) : IsName s ↔ startsName s = true := by
  have undotted : '.' ∉ s := fun dot => absurd (run.2 '.' dot) (by decide)
  unfold IsName Text.pieces
  rw [Text.cut_of_no_mark (Text.ne_mark undotted), List.forall_mem_singleton]
  exact and_iff_left run.2

theorem startsName_append (h : startsName s = true) (t : Text) : startsName (s ++ t) = true := by
  cases s with
  | nil => cases h
  | cons c s => exact h

theorem IsName.append (hs : IsName s) (ht : IsName t) : IsName (s ++ t) := by
  unfold IsName Text.pieces at *
  obtain ⟨front, last, before⟩ :=
    (List.eq_nil_or_concat (Text.cut (· == '.') s)).resolve_left (Text.cut_ne_nil _ _)
  obtain ⟨first, others, after⟩ := List.exists_cons_of_ne_nil (Text.cut_ne_nil (· == '.') t)
  rw [List.concat_eq_append] at before
  rw [before, List.forall_mem_append, List.forall_mem_singleton] at hs
  rw [after, List.forall_mem_cons] at ht
  rw [Text.cut_append before after, List.forall_mem_append, List.forall_mem_cons]
  refine ⟨hs.1, ⟨startsName_append hs.2.1 first, fun c hc => ?_⟩, ht.2⟩
  rcases List.mem_append.1 hc with hc | hc
  · exact hs.2.2 c hc
  · exact ht.1.2 c hc

theorem IsName.nameOf (table : IsName p.1) (column : IsName p.2) : IsName (nameOf p) := by
  have lead : IsName "idx_".toList := by decide
  have link : IsName "_".toList := by decide
  exact ((lead.append table).append link).append column

theorem IsName.unspaced (h : IsName s) : ' ' ∉ s := by
  intro blank
  have somewhere : ∃ part ∈ Text.pieces '.' s, ' ' ∈ part := Text.exists_mem_cut blank rfl
  obtain ⟨part, listed, inside⟩ := somewhere
  exact absurd ((h part listed).2 ' ' inside) (by decide)

end Names

section Template

variable {i t c : Text} {p : Text × Text}

def IsReady (statement : Text) : Prop :=
  ∃ i t c, IsName i ∧ IsName t ∧ IsName c ∧ statement = createStatement i t c

theorem pieces_createStatement (hi : ' ' ∉ i) (ht : ' ' ∉ t) (hc : ' ' ∉ c) :
    Text.pieces ' ' (createStatement i t c) =
      ["CREATE".toList, "INDEX".toList, i, "ON".toList, t, '(' :: (c ++ ");".toList)] := by
  have parted : createStatement i t c = "CREATE".toList ++ ' ' :: ("INDEX".toList ++ ' ' ::
      (i ++ ' ' :: ("ON".toList ++ ' ' :: (t ++ ' ' :: '(' :: (c ++ ");".toList))))) := by
    -- only the fixed parts are left to be computed once the parts are put in a row
    have row (a b d e : Text) : a ++ i ++ b ++ t ++ d ++ c ++ e =
        a ++ (i ++ (b ++ (t ++ (d ++ (c ++ e))))) := by simp only [List.append_assoc]
    exact row _ _ _ _
  have last : ' ' ∉ '(' :: (c ++ ");".toList) := by
    rw [List.mem_cons, List.mem_append, not_or, not_or]
    exact ⟨by decide, hc, by decide⟩
  have next {s rest : Text} (h : ' ' ∉ s) :
      Text.pieces ' ' (s ++ ' ' :: rest) = s :: Text.pieces ' ' rest := by
    unfold Text.pieces
    rw [Text.cut_append_mark (m := ' ') rfl, Text.cut_of_no_mark (Text.ne_mark h)]
    rfl
  rw [parted, next (by decide), next (by decide), next hi, next (by decide), next ht, Text.pieces,
    Text.cut_of_no_mark (Text.ne_mark last)]

theorem count_createStatement (i t c : Text) :
    (createStatement i t c).count ' ' = 5 + (i.count ' ' + t.count ' ' + c.count ' ') := by
  have fixed : "CREATE INDEX ".toList.count ' ' = 2 ∧ " ON ".toList.count ' ' = 2 ∧
      " (".toList.count ' ' = 1 ∧ ");".toList.count ' ' = 0 := by decide
  unfold createStatement
  iterate 6 rw [List.count_append]
  omega

/-- A statement is made of names only if the table and the column that are put into it are names: a
blank in them is one too many for the template, and without one it is parted in one way. -/
theorem isReady_iff : IsReady (createStatement (nameOf p) p.1 p.2) ↔ IsName p.1 ∧ IsName p.2 := by
  constructor
  · rintro ⟨i, t, c, index, table, column, same⟩
    have counted := congrArg (List.count ' ') same
    rw [count_createStatement, count_createStatement, List.count_eq_zero.2 index.unspaced,
      List.count_eq_zero.2 table.unspaced, List.count_eq_zero.2 column.unspaced] at counted
    have unspaced {s : Text} (h : s.count ' ' = 0) : ' ' ∉ s := List.count_eq_zero.1 h
    have parted := congrArg (Text.pieces ' ') same
    rw [pieces_createStatement (unspaced (by omega)) (unspaced (by omega)) (unspaced (by omega)),
      pieces_createStatement index.unspaced table.unspaced column.unspaced] at parted
    simp only [List.cons.injEq, List.append_cancel_right_eq, true_and, and_true] at parted
    obtain ⟨_, rfl, rfl⟩ := parted
    exact ⟨table, column⟩
  · rintro ⟨table, column⟩
    exact ⟨_, _, _, table.nameOf column, table, column, rfl⟩

end Template

section Sources

variable {facts : Facts}

theorem forall_mem_candidatePairs {P : Text × Text → Prop} :
    (∀ p ∈ candidatePairs facts, P p) ↔
      (∀ condition ∈ facts.whereConditions, ∀ column ∈ conditionColumn? condition,
        ∀ table ∈ facts.tables, P (table, column)) ∧
      (∀ join ∈ facts.joinConditions, ∀ sides ∈ joinSides? join.condition,
        P sides.1 ∧ P sides.2) ∧
      ∀ item ∈ facts.orderItems, ∀ table ∈ facts.tables, P (table, sortColumn item) := by
  unfold candidatePairs
  simp only [List.forall_mem_append, List.forall_mem_flatMap, List.forall_mem_map,
    Option.mem_toList, Option.mem_def, List.mem_cons, List.not_mem_nil, or_false,
    forall_eq_or_imp, forall_eq, and_assoc]

/-- What is sure of the tables and columns that candidates are made of: none has a comma, and only
what sorts can have blanks. -/
structure Confined (facts : Facts) : Prop where
  tables : ∀ table ∈ facts.tables,
    table ≠ [] ∧ ∀ c ∈ table, Text.isBlank c = false ∧ c ≠ ','
  compared : ∀ condition ∈ facts.whereConditions, ∀ column ∈ conditionColumn? condition,
    IsRun column
  joined : ∀ join ∈ facts.joinConditions, ∀ sides ∈ joinSides? join.condition,
    (IsRun sides.1.1 ∧ IsRun sides.1.2) ∧ IsRun sides.2.1 ∧ IsRun sides.2.2
  sorted : ∀ item ∈ facts.orderItems,
    sortColumn item ≠ [] ∧ Text.Tight (sortColumn item) ∧ ',' ∉ sortColumn item

structure Named (facts : Facts) : Prop where
  compared : ∀ condition ∈ facts.whereConditions, ∀ column ∈ conditionColumn? condition,
    ∀ table ∈ facts.tables, IsName table ∧ startsName column = true
  joined : ∀ join ∈ facts.joinConditions, ∀ sides ∈ joinSides? join.condition,
    (startsName sides.1.1 = true ∧ startsName sides.1.2 = true) ∧
      startsName sides.2.1 = true ∧ startsName sides.2.2 = true
  sorted : ∀ item ∈ facts.orderItems, ∀ table ∈ facts.tables,
    IsName table ∧ IsName (sortColumn item)

theorem confined_extract (query : Text) : Confined (Facts.extract query) where
  tables _ known := solid_of_mem_tables known
  compared _ _ _ read := isRun_conditionColumn? read
  joined _ _ _ read := isRun_joinSides? read
  sorted _ listed := tight_sortColumn listed

theorem Confined.named_iff (confined : Confined facts) :
    Named facts ↔ ∀ p ∈ candidatePairs facts, IsName p.1 ∧ IsName p.2 := by
  have sources : Named facts ↔ _ ∧ _ ∧ _ :=
    ⟨fun named => ⟨named.compared, named.joined, named.sorted⟩,
      fun ⟨compared, joined, sorted⟩ => ⟨compared, joined, sorted⟩⟩
  rw [forall_mem_candidatePairs, sources]
  refine and_congr ?_ (and_congr ?_ Iff.rfl)
  · refine forall₄_congr fun condition listed column read => forall₂_congr fun table known => ?_
    rw [(confined.compared condition listed column read).isName_iff]
  · refine forall₄_congr fun join listed sides read => ?_
    obtain ⟨left, right⟩ := confined.joined join listed sides read
    rw [left.1.isName_iff, left.2.isName_iff, right.1.isName_iff, right.2.isName_iff]

theorem IsRun.not_comma {s : Text} (run : IsRun s) : ',' ∉ s := fun comma =>
  absurd (run.2 ',' comma) (by decide)

theorem Confined.not_comma (confined : Confined facts) :
    ∀ p ∈ candidatePairs facts, ',' ∉ p.1 ∧ ',' ∉ p.2 := by
  have reference {table : Text} (known : table ∈ facts.tables) : ',' ∉ table := fun comma =>
    ((confined.tables table known).2 ',' comma).2 rfl
  rw [forall_mem_candidatePairs]
  refine ⟨fun condition listed column read table known => ?_, fun join listed sides read => ?_,
    fun item listed table known => ⟨reference known, (confined.sorted item listed).2.2⟩⟩
  · exact ⟨reference known, (confined.compared condition listed column read).not_comma⟩
  · obtain ⟨left, right⟩ := confined.joined join listed sides read
    exact ⟨⟨left.1.not_comma, left.2.not_comma⟩, right.1.not_comma, right.2.not_comma⟩

end Sources

theorem not_mem_createStatement {p : Text × Text} (h : ',' ∉ p.1 ∧ ',' ∉ p.2) :
    ',' ∉ createStatement (nameOf p) p.1 p.2 := by
  have fixed : ∀ s ∈ ["CREATE INDEX ".toList, " ON ".toList, " (".toList, ");".toList,
      "idx_".toList, "_".toList], ',' ∉ s := by decide
  simp only [List.forall_mem_cons] at fixed
  unfold createStatement nameOf indexName
  iterate 9 rw [List.mem_append]
  grind

/-- Each statement is the template with the table and the column of a candidate in it, and it is
ready to run just if both are names. So all statements of a query are ready just if the tables are
names wherever they are used, the columns of conditions and the names in joins begin with a letter
or an underscore, and the sort items are names with at most a direction after them. None of this is
checked: a comma never gets into a statement, but what else does is up to the query. -/
theorem createStatements_ready (query : Text) :
    let facts := Facts.extract query
    let statements := (Recommendations.ofFacts facts).createStatements
    (∀ statement, statement ∈ statements ↔
      ∃ p ∈ candidatePairs facts, statement = createStatement (nameOf p) p.1 p.2) ∧
    (∀ p : Text × Text, IsReady (createStatement (nameOf p) p.1 p.2) ↔ IsName p.1 ∧ IsName p.2) ∧
    ((∀ statement ∈ statements, IsReady statement) ↔ Named facts) ∧
    Confined facts ∧ ∀ statement ∈ statements, ',' ∉ statement := by
  intro facts statements
  have confined : Confined facts := confined_extract query
  have made (statement : Text) : statement ∈ statements ↔
      ∃ p ∈ candidatePairs facts, statement = createStatement (nameOf p) p.1 p.2 := by
    simp only [statements, Recommendations.createStatements_ofFacts, List.mem_map, mem_pairs_iff,
      eq_comm]
  refine ⟨made, fun p => isReady_iff, ?_, confined, ?_⟩
  · rw [confined.named_iff]
    constructor
    · intro ready p listed
      exact isReady_iff.1 (ready _ ((made _).2 ⟨p, listed, rfl⟩))
    · intro named statement listed
      obtain ⟨p, candidate, rfl⟩ := (made statement).1 listed
      exact isReady_iff.2 (named p candidate)
  · intro statement listed
    obtain ⟨p, candidate, rfl⟩ := (made statement).1 listed
    exact not_mem_createStatement (confined.not_comma p candidate)

/-- The number that a condition begins with is taken for a column. -/
theorem number_indexed :
    (Recommendations.ofFacts (Facts.extract "SELECT a FROM t WHERE 1 = 1")).createStatements =
      ["CREATE INDEX idx_t_1 ON t (1);".toList] ∧
    ¬ ∀ query : Text, ∀ statement ∈
      (Recommendations.ofFacts (Facts.extract query)).createStatements, IsReady statement := by
  have made : (Recommendations.ofFacts
      (Facts.extract "SELECT a FROM t WHERE 1 = 1")).createStatements =
        [createStatement (nameOf ("t", "1")) "t" "1"] := by decide +kernel
  refine ⟨made, fun ready => ?_⟩
  have numbered := ready "SELECT a FROM t WHERE 1 = 1"
  rw [made, List.forall_mem_singleton] at numbered
  have column : ¬ IsName "1".toList := by decide
  exact column (isReady_iff.1 numbered).2

end Index

end SqlReview
