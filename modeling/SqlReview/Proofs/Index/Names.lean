import SqlReview.Proofs.Index.Grouping

/-!
The names of recommended indexes. An underscore parts the table from the column and may stand inside
of both, so a name tells them apart within one table only: two tables can have an index of the same
name if the one continues the name of the other.
-/
namespace SqlReview.Index

open Query

/-- The underscore of the name can be taken for another one: the second table goes on where the
first one ends, as far as the first column does before the second column. -/
def RunsInto (p q : Text × Text) : Prop :=
  ∃ middle : Text, q.1 = p.1 ++ '_' :: middle ∧ p.2 = middle ++ '_' :: q.2

def nameOf (p : Text × Text) : Text := indexName p.1 p.2

theorem RunsInto.continues {p q : Text × Text} (h : RunsInto p q) : p.1 ++ ['_'] <+: q.1 := by
  obtain ⟨middle, table, _⟩ := h
  exact ⟨middle, by simp [table]⟩

theorem RunsInto.ne {p q : Text × Text} (h : RunsInto p q) : p ≠ q := by
  rintro rfl
  have longer := h.continues.length_le
  rw [List.length_append, List.length_singleton] at longer
  omega

theorem RunsInto.nameOf_eq {p q : Text × Text} (h : RunsInto p q) : nameOf p = nameOf q := by
  obtain ⟨middle, table, column⟩ := h
  simp [nameOf, indexName, table, column]

theorem nameOf_eq_iff {p q : Text × Text} :
    nameOf p = nameOf q ↔ p = q ∨ RunsInto p q ∨ RunsInto q p := by
  constructor
  · intro same
    have parted : p.1 ++ '_' :: p.2 = q.1 ++ '_' :: q.2 := by
      simpa [nameOf, indexName] using same
    -- the table that ends later holds the underscore of the other name
    have later {t t' c c' more : Text} (table : t' = t ++ more)
        (column : '_' :: c = more ++ '_' :: c') : (t, c) = (t', c') ∨ RunsInto (t, c) (t', c') := by
      cases more with
      | nil =>
        left
        rw [table, List.append_nil, (List.cons.inj column).2]
      | cons mark middle =>
        obtain ⟨here, rest⟩ := List.cons.inj column
        exact .inr ⟨middle, here ▸ table, rest⟩
    rcases List.append_eq_append_iff.1 parted with ⟨more, table, column⟩ | ⟨more, table, column⟩
    · exact (later table column).imp_right .inl
    · rcases later table column with e | into
      · exact .inl e.symm
      · exact .inr (.inr into)
  · rintro (rfl | into | into)
    · rfl
    · exact into.nameOf_eq
    · exact into.nameOf_eq.symm

namespace Recommendations

def names (r : Recommendations) : List Text := r.toList.map fun entry => entry.2.1

def pairs (r : Recommendations) : List (Text × Text) :=
  r.toList.flatMap fun entry => entry.2.2.columns.map fun column => (entry.1, column)

def listed (facts : Facts) : List Candidate :=
  (firsts Candidate.table (stream facts)).flatMap fun lead =>
    (firsts Candidate.pair (stream facts)).filter fun c => c.table = lead.table

variable {facts : Facts}

theorem toList_ofFacts (facts : Facts) :
    (ofFacts facts).toList = (listed facts).map Candidate.entry := by
  rw [ofFacts_eq, toList_grouped, listed, List.map_flatMap]

theorem pairs_ofFacts (facts : Facts) :
    (ofFacts facts).pairs = (listed facts).map Candidate.pair := by
  rw [pairs, toList_ofFacts, List.flatMap_map, List.map_eq_flatMap]
  rfl

theorem names_ofFacts (facts : Facts) : (ofFacts facts).names = (ofFacts facts).pairs.map nameOf := by
  rw [names, pairs_ofFacts, toList_ofFacts, List.map_map, List.map_map]
  rfl

theorem nodup_pairs (facts : Facts) : (ofFacts facts).pairs.Nodup := by
  have perm := perm_toList_grouped (stream facts)
  rw [← ofFacts_eq, toList_ofFacts] at perm
  have same := perm.map fun entry => (entry.1, entry.2.2.columns.headD [])
  rw [List.map_map, List.map_map] at same
  rw [pairs_ofFacts]
  exact same.nodup_iff.2 (nodup_map_firsts Candidate.pair (stream facts))

theorem createStatements_ofFacts (facts : Facts) : (ofFacts facts).createStatements =
    (ofFacts facts).pairs.map fun p => createStatement (nameOf p) p.1 p.2 := by
  rw [createStatements, pairs_ofFacts, toList_ofFacts, List.map_map, List.map_map]
  rfl

theorem table_of_mem_pairs {p : Text × Text} (h : p ∈ (ofFacts facts).pairs) :
    p.1 ∈ (ofFacts facts).tables := by
  rw [pairs_ofFacts] at h
  obtain ⟨c, hc, rfl⟩ := List.mem_map.1 h
  obtain ⟨lead, hl, hc⟩ := List.mem_flatMap.1 hc
  have same : c.table = lead.table := of_decide_eq_true (List.mem_filter.1 hc).2
  have tables : (ofFacts facts).tables = (firsts Candidate.table (stream facts)).map
      Candidate.table := by rw [ofFacts_eq]; exact tables_grouped _
  rw [tables]
  exact List.mem_map.2 ⟨lead, hl, same.symm⟩

/-- Every statement makes the index that its table and column name, each table and column once. Two
indexes of one table have different names, and two of different tables have the same name only if
the table and column of the one run into those of the other. So all names of a run are different
unless that happens, which takes a table that continues another one after an underscore. -/
theorem ofFacts_names (facts : Facts) :
    (ofFacts facts).createStatements =
        (ofFacts facts).pairs.map (fun p => createStatement (nameOf p) p.1 p.2) ∧
      (ofFacts facts).names = (ofFacts facts).pairs.map nameOf ∧
      (ofFacts facts).pairs.Nodup ∧
      (∀ p ∈ (ofFacts facts).pairs, ∀ q ∈ (ofFacts facts).pairs,
        p.1 = q.1 → nameOf p = nameOf q → p = q) ∧
      (∀ p ∈ (ofFacts facts).pairs, ∀ q ∈ (ofFacts facts).pairs,
        nameOf p = nameOf q ↔ p = q ∨ RunsInto p q ∨ RunsInto q p) ∧
      ((ofFacts facts).names.Nodup ↔
        ∀ p ∈ (ofFacts facts).pairs, ∀ q ∈ (ofFacts facts).pairs, ¬ RunsInto p q) ∧
      ((∀ t ∈ (ofFacts facts).tables, ∀ t' ∈ (ofFacts facts).tables, ¬ t ++ ['_'] <+: t') →
        (ofFacts facts).names.Nodup) := by
  have distinct : (ofFacts facts).names.Nodup ↔
      ∀ p ∈ (ofFacts facts).pairs, ∀ q ∈ (ofFacts facts).pairs, ¬ RunsInto p q := by
    rw [names_ofFacts, List.nodup_map_iff_inj_on (nodup_pairs facts)]
    constructor
    · intro inj p hp q hq into
      exact into.ne (inj p hp q hq into.nameOf_eq)
    · intro apart p hp q hq same
      rcases nameOf_eq_iff.1 same with e | into | into
      · exact e
      · exact absurd into (apart p hp q hq)
      · exact absurd into (apart q hq p hp)
  refine ⟨createStatements_ofFacts facts, names_ofFacts facts, nodup_pairs facts, ?_,
    fun _ _ _ _ => nameOf_eq_iff, distinct, ?_⟩
  · intro p _ q _ table same
    have columns : p.2 = q.2 := by
      simp only [nameOf, indexName, table] at same
      exact List.append_cancel_left same
    exact Prod.ext table columns
  · intro apart
    rw [distinct]
    intro p hp q hq into
    exact apart p.1 (table_of_mem_pairs hp) q.1 (table_of_mem_pairs hq) into.continues

/-- A join of two tables, the second of which is named after the first and a column of it. -/
def userRoles : Facts :=
  { tables := []
    columns := []
    whereConditions := []
    joinConditions := [⟨"user_role", "user.role_id = user_role.id"⟩]
    orderItems := [] }

theorem ofFacts_names_twoTables : (ofFacts twoTables).names.Nodup ∧
    ("user".toList, "role_id".toList) ∈ (ofFacts userRoles).pairs ∧
    ("user_role".toList, "id".toList) ∈ (ofFacts userRoles).pairs ∧
    RunsInto ("user", "role_id") ("user_role", "id") ∧
    nameOf ("user", "role_id") = nameOf ("user_role", "id") := by
  obtain ⟨_, _, _, _, _, _, distinct⟩ := ofFacts_names twoTables
  obtain ⟨_, _, _, _, clash, _⟩ := ofFacts_names userRoles
  have into : RunsInto ("user", "role_id") ("user_role", "id") := ⟨"role", rfl, rfl⟩
  have first : ("user".toList, "role_id".toList) ∈ (ofFacts userRoles).pairs := by decide +kernel
  have second : ("user_role".toList, "id".toList) ∈ (ofFacts userRoles).pairs := by decide +kernel
  exact ⟨distinct (by decide +kernel), first, second, into,
    (clash _ first _ second).2 (.inr (.inl into))⟩

/-- Two statements of one run make an index of the same name. -/
theorem index_name_repeated : (ofFacts userRoles).createStatements =
      ["CREATE INDEX idx_user_role_id ON user (role_id);".toList,
        "CREATE INDEX idx_user_role_id ON user_role (id);".toList] ∧
    (ofFacts userRoles).names = ["idx_user_role_id".toList, "idx_user_role_id".toList] ∧
    ¬ ∀ facts : Facts, (ofFacts facts).names.Nodup := by
  have names : (ofFacts userRoles).names =
      ["idx_user_role_id".toList, "idx_user_role_id".toList] := by decide +kernel
  refine ⟨by decide +kernel, names, ?_⟩
  intro distinct
  have two := distinct userRoles
  rw [names] at two
  exact absurd two (by decide)

end Recommendations

end SqlReview.Index
