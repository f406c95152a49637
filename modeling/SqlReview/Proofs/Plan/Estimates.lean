import SqlReview.Proofs.Plan.MySql.Estimates
import SqlReview.Proofs.Plan.Postgres.Nesting

/-!
Plans from drivers that quote numbers. Whole numbers stay what they are; all others are lost, and
with them what is known of the size of a scan.
-/
namespace SqlReview.Plan

open Insight (Shipped IsConcern)

namespace Postgres

def Told.filled (given : Quotation → Json) (d : Told × Option Quotation) : Told :=
  { d.1 with rows := d.2.elim d.1.rows fun q => some (given q) }

def Told.estimated (d : Told × Option Quotation) : Estimated := ⟨d.1.node, d.2⟩

theorem Told.node_filled (given : Quotation → Json) (d : Told × Option Quotation) :
    (Told.filled given d).node = Estimated.read given (Told.estimated d) := by
  obtain ⟨t, quotation⟩ := d
  cases quotation <;> rfl

theorem normalize_filled {given : Quotation → Json} {v plan : Json}
    {g : Forest (Told × Option Quotation)} (located : wrapping.unwrap v = .ok plan)
    (tells : (nesting [plan]).map told = g.map (Told.filled given))
    (typed : ∀ d ∈ g.labels, d.1.HasType) : normalize .postgres v =
      .ok ⟨.postgres, (g.map Told.estimated).nodes (Estimated.read given)⟩ := by
  have types : ∀ w, Holds plan w → (told w).HasType := by
    have all : ∀ t ∈ ((nesting [plan]).map told).labels, t.HasType := by
      rw [tells, Forest.labels_map, List.forall_mem_map]
      exact typed
    intro w hw
    rw [Forest.labels_map, List.forall_mem_map] at all
    exact all w (mem_labels_nesting_singleton.2 hw)
  rw [normalize_of_hasType located types, tells, Forest.nodes_map, Forest.nodes_map]
  simp only [Told.node_filled]

end Postgres

/-- Every number that is not negative gives an estimate. In quotes, with blanks or without, it gives
the same just if it is whole, and none otherwise. The rule about full scans says the same of a plan
with and without quotes just if no full scan loses its estimate, and all scans stay in their
categories just if those that lose one are concerns with it. Documents of PostgreSQL and MySQL are
read as such plans, which have the same steps however the numbers are given. -/
theorem readRows?_quotation (q : Quotation) (t : Thresholds) (f : Forest Estimated)
    (database : Database) :
    ((∃ rows, readRows? (some q.plain) = some rows) ∧
      readRows? (some q.quoted) = if q.IsWhole then readRows? (some q.plain) else none) ∧
    (Shipped.fullScan.insights t ⟨database, f.nodes Estimated.quoted⟩ =
        Shipped.fullScan.insights t ⟨database, f.nodes Estimated.plain⟩ ↔
      ∀ s ∈ f.labels, s.node.operation = .fullScan → ¬ s.Loses) ∧
    ((Shipped.fullScan.insights t ⟨database, f.nodes Estimated.quoted⟩).map (·.category) =
        (Shipped.fullScan.insights t ⟨database, f.nodes Estimated.plain⟩).map (·.category) ↔
      ∀ s ∈ f.labels, s.node.operation = .fullScan → s.Loses → IsConcern t s.plain) ∧
    (∀ (given : Quotation → Json) (v plan : Json) (g : Forest (Postgres.Told × Option Quotation)),
      Postgres.wrapping.unwrap v = .ok plan →
      (Postgres.nesting [plan]).map Postgres.told = g.map (Postgres.Told.filled given) →
      (∀ d ∈ g.labels, d.1.HasType) → normalize .postgres v =
        .ok ⟨.postgres, (g.map Postgres.Told.estimated).nodes (Estimated.read given)⟩) ∧
    ∀ g : Forest (MySql.Told × Option Quotation),
      (∀ (given : Quotation → Json) (v block : Json), MySql.wrapping.unwrap v = .ok block →
        MySql.Outlined given [(.block, block)] g → normalize .mySql v =
          (MySql.steps g).map fun f => ⟨.mySql, f.nodes (Estimated.read given)⟩) ∧
      ∀ f, MySql.steps g = .ok f → MySql.numbered f = g.labels.filterMap MySql.Told.estimated? :=
  ⟨⟨q.exists_rows, q.readRows?_quoted⟩, Estimated.insights_quoted_iff,
    Estimated.categories_quoted_iff,
    fun _ _ _ _ located tells typed => Postgres.normalize_filled located tells typed,
    fun _ => ⟨fun _ _ _ located outlined => MySql.normalize_outlined located outlined,
      fun _ => MySql.numbered_steps⟩⟩

def halfRow : Quotation where
  before := []
  numeral := "12.5"
  after := " "
  number := .real ⟨false, 7036874417766400, -49⟩
  spelled := by decide +kernel
  unsigned := nofun
  blank_before := nofun
  blank_after := by simp [Text.isBlank]

section HalfRow

variable (given : Quotation → Json)

def seqScan : Json :=
  .ofFields [("Node Type", .string "Seq Scan"), ("Relation Name", .string "users"),
    ("Plan Rows", given halfRow)]

def tableScan : Json :=
  .ofFields [("access_type", .string "ALL"), ("table_name", .string "users"),
    ("rows_examined_per_scan", given halfRow)]

def seqScanTold : Forest (Postgres.Told × Option Quotation) :=
  .tree (⟨some (.string "Seq Scan"), some (.string "users"), none, none⟩, some halfRow)
    .empty .empty

def tableScanTold : Forest (MySql.Told × Option Quotation) :=
  .tree (.wrapped true none, none)
    (.tree (.table ⟨.fullScan, "table (ALL)", some "users", none, none, []⟩ none, some halfRow)
      (.tree (.wrapped false none, none) .empty
        (.tree (.wrapped false none, none) .empty
          (.tree (.wrapped false none, none) .empty .empty))) .empty) .empty

theorem told_seqScan : (Postgres.nesting [seqScan given]).map Postgres.told =
    seqScanTold.map (Postgres.Told.filled given) := by
  have below : Postgres.plansOf (seqScan given) = [] := rfl
  simp only [Postgres.nesting, below, Forest.map]
  rfl

theorem outlined_tableScan (scalar : (given halfRow).items? = none) :
    MySql.Outlined given [(.block, .ofFields [("table", tableScan given)])] tableScanTold := by
  have leaf (v : Json) (h : v.items? = none) : MySql.Outlined given (MySql.Place.other.parts v)
      .empty := by
    rw [MySql.Place.parts, h]
    exact .nil
  have block : MySql.Place.block.parts (.ofFields [("table", tableScan given)]) =
      [(.table, tableScan given)] := rfl
  have table : MySql.Place.table.parts (tableScan given) =
      [(.other, .string "ALL"), (.other, .string "users"), (.other, given halfRow)] := rfl
  refine .cons rfl ?_ .nil
  rw [block]
  refine .cons rfl ?_ .nil
  rw [table]
  exact .cons rfl (leaf _ rfl) (.cons rfl (leaf _ rfl) (.cons rfl (leaf _ scalar) .nil))

end HalfRow

theorem readRows?_quotation_halfRow :
    normalize .postgres (.object [("Plan", seqScan Quotation.plain)]) =
        .ok ⟨.postgres, [Insight.scanOf "users" (some 13)]⟩ ∧
      normalize .postgres (.object [("Plan", seqScan Quotation.quoted)]) =
        .ok ⟨.postgres, [Insight.scanOf "users" none]⟩ ∧
      normalize .mySql
          (.object [("query_block", .ofFields [("table", tableScan Quotation.quoted)])]) =
        .ok ⟨.mySql, [⟨.fullScan, "table (ALL)", some "users", none, none, []⟩]⟩ ∧
      (Shipped.fullScan.insights .default ⟨.postgres, [Insight.scanOf "users" none]⟩).map
          (·.category) ≠
        (Shipped.fullScan.insights .default ⟨.postgres, [Insight.scanOf "users" (some 13)]⟩).map
          (·.category) := by
  obtain ⟨⟨_, value⟩, _, categories, postgres, mySql⟩ := readRows?_quotation halfRow .default
    (seqScanTold.map Postgres.Told.estimated) .postgres
  have kept : readRows? (some halfRow.plain) = some 13 := by decide +kernel
  have fraction : ¬ halfRow.IsWhole := by decide +kernel
  have lost : readRows? (some halfRow.quoted) = none := by rw [value, if_neg fraction]
  have read (given : Quotation → Json) :
      (seqScanTold.map Postgres.Told.estimated).nodes (Estimated.read given) =
        [Insight.scanOf "users" (readRows? (some (given halfRow)))] := rfl
  have typed : ∀ d ∈ seqScanTold.labels, d.1.HasType := by
    simp [seqScanTold, Forest.labels, Postgres.Told.HasType]
  have located (given : Quotation → Json) :
      Postgres.wrapping.unwrap (.object [("Plan", seqScan given)]) = .ok (seqScan given) := by
    rw [Wrapping.unwrap]
    rfl
  have located' : MySql.wrapping.unwrap
      (.object [("query_block", .ofFields [("table", tableScan Quotation.quoted)])]) =
      .ok (.ofFields [("table", tableScan Quotation.quoted)]) := by
    rw [Wrapping.unwrap]
    rfl
  refine ⟨?_, ?_, ?_, ?_⟩
  · rw [postgres _ _ _ _ (located _) (told_seqScan _) typed, read, kept]
  · rw [postgres _ _ _ _ (located _) (told_seqScan _) typed, read, lost]
  · rw [(mySql tableScanTold).1 _ _ _ located' (outlined_tableScan _ rfl)]
    change Except.ok (⟨.mySql, [⟨.fullScan, "table (ALL)", some "users".toList, none,
      readRows? (some halfRow.quoted), []⟩]⟩ : Tree) = _
    rw [lost]
  · rw [Estimated.quoted, Estimated.plain, read, read, kept, lost] at categories
    intro same
    have concern := categories.1 same ⟨Insight.scanOf "users" none, some halfRow⟩
      List.mem_cons_self rfl ⟨halfRow, rfl, fraction⟩
    exact absurd (concern.2 13 kept) (by decide)

/-- A numeral in quotes gives another estimate than the number, or none. -/
theorem numeral_lost_in_quotes :
    ¬ ∀ (s : Text) (n : Numeral), Numeral.read? s = some (n, []) → s.head? ≠ some '-' →
      readRows? (some (.string s)) = readRows? (some (.number n)) := by
  intro same
  have half := same "12.5" _ halfRow.spelled (by decide)
  have kept : readRows? (some (.number halfRow.number)) = some 13 := by decide +kernel
  have lost : readRows? (some (.string "12.5")) = none := by decide +kernel
  rw [kept, lost] at half
  cases half

end SqlReview.Plan
