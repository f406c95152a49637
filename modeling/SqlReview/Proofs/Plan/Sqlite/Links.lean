import Mathlib.Data.Fintype.Card
import Mathlib.Data.List.Sigma
import Mathlib.Data.Set.Finite.Basic
import SqlReview.Plan.Normal
import SqlReview.Proofs.Plan.Sqlite.Gathering

/-!
What the links between the rows of a plan make of them. A forest that is assembled arranges the
rows by their links, and a number has a node exactly if links lead to it from a root. When the
numbers are distinct and no chain of links closes, no row is missing.
-/
namespace SqlReview.Plan.Sqlite

/-- The numbers to which links lead from some numbers to start with. -/
inductive Reached (rows : List Row) (starts : List Int) : Int → Prop where
  | start {x : Int} : x ∈ starts → Reached rows starts x
  | link {row : Row} : row ∈ rows → Reached rows starts row.parent → row.parent ≠ row.id →
      Reached rows starts row.id

def LinksTo (rows : List Row) (row parent : Row) : Prop :=
  row ∈ rows ∧ parent ∈ rows ∧ row.parent = parent.id ∧ row.parent ≠ row.id

/-- A measure that falls along every link keeps chains from closing. -/
theorem loopless_of_measure {rows : List Row} (measure : Row → Nat)
    (falls : ∀ row parent, LinksTo rows row parent → measure parent < measure row) :
    ∀ row, ¬ Relation.TransGen (LinksTo rows) row row := by
  have chain {row top : Row} (h : Relation.TransGen (LinksTo rows) row top) :
      measure top < measure row := by
    induction h with
    | single link => exact falls _ _ link
    | tail _ link ih => exact Nat.lt_trans (falls _ _ link) ih
  intro row h
  exact Nat.lt_irrefl _ (chain h)

theorem Row.isRoot_iff {rows : List Row} {row : Row} :
    row.isRoot rows = true ↔ row.parent = row.id ∨ ∀ other ∈ rows, other.id ≠ row.parent := by
  simp [Row.isRoot]

theorem Row.isBelow_iff {id : Int} {row : Row} :
    row.isBelow id = true ↔ row.parent = id ∧ row.parent ≠ row.id := by
  simp only [Row.isBelow, Bool.and_eq_true, beq_iff_eq, bne_iff_ne]
  constructor
  · rintro ⟨rfl, other⟩
    exact ⟨rfl, other.symm⟩
  · rintro ⟨rfl, other⟩
    exact ⟨rfl, other.symm⟩

theorem Row.not_isRoot_of_isBelow {rows : List Row} {row parent : Row} (h : parent ∈ rows)
    (below : row.isBelow parent.id = true) : ¬ row.isRoot rows = true := by
  obtain ⟨named, other⟩ := Row.isBelow_iff.1 below
  intro root
  rcases Row.isRoot_iff.1 root with same | dangles
  · exact other same
  · exact dangles parent h named.symm

/-- The forest holds rows in the places their links give them, in row order, no number twice. -/
structure Arranges (rows : List Row) (f : Forest (Row × Nat)) : Prop where
  known : f.labels ⊆ rows.zipIdx
  distinct : (f.labels.map (·.1.id)).Nodup
  roots : f.roots.Sublist (rows.zipIdx.filter fun l => l.1.isRoot rows)
  below : ∀ b ∈ f.branches, b.2.roots.Sublist (rows.zipIdx.filter fun l => l.1.isBelow b.1.1.id)

theorem mem_of_mem_zipIdx {rows : List Row} {l : Row × Nat} (h : l ∈ rows.zipIdx) :
    l.1 ∈ rows := by
  rw [← List.zipIdx_map_fst 0 rows]
  exact List.mem_map_of_mem h

theorem exists_mem_zipIdx {rows : List Row} {row : Row} (h : row ∈ rows) :
    ∃ l ∈ rows.zipIdx, l.1 = row := by
  rw [← List.zipIdx_map_fst 0 rows] at h
  exact List.mem_map.1 h

theorem map_fst_filter_zipIdx (rows : List Row) (test : Row → Bool) :
    (rows.zipIdx.filter fun l => test l.1).map Prod.fst = rows.filter test := by
  conv_rhs => rw [← List.zipIdx_map_fst 0 rows]
  rw [List.filter_map]
  rfl

theorem map_id_filter_zipIdx (rows : List Row) (test : Row → Bool) :
    (rows.zipIdx.filter fun l => test l.1).map (fun l => l.1.id) =
      (rows.filter test).map Row.id := by
  rw [← map_fst_filter_zipIdx, List.map_map]
  rfl

theorem zipIdx_eq_of_getElem? {rows : List Row} {place : Nat} {row : Row}
    (h : rows[place]? = some row) :
    rows.zipIdx = (rows.take place).zipIdx ++ (row, place) ::
      (rows.drop (place + 1)).zipIdx (place + 1) := by
  obtain ⟨inside, rfl⟩ := List.getElem?_eq_some_iff.1 h
  conv_lhs => rw [← List.take_append_drop place rows, List.drop_eq_getElem_cons inside]
  rw [List.zipIdx_append, List.length_take, Nat.min_eq_left (Nat.le_of_lt inside), Nat.zero_add,
    List.zipIdx_cons]

namespace Gathers

variable {rows : List Row} {ls : List (Row × Nat)} {f : Forest (Row × Nat)} {b : Assembly}

theorem arranges (h : Gathers (.start rows) (rows.zipIdx.filter fun l => l.1.isRoot rows) f b) :
    Arranges rows f := by
  have all := Assembly.waiting_start rows
  refine ⟨all ▸ h.labels_subset, h.ids_fresh.1, h.roots_sublist, ?_⟩
  intro b hb
  exact all ▸ h.linked hb

/-- The numbers with a node are those that links lead to from the rows looked at. -/
theorem mem_visited_iff_reached (h : Gathers (.start rows) ls f b) (known : ls ⊆ rows.zipIdx)
    {x : Int} : x ∈ b.visited ↔ Reached rows (ls.map (·.1.id)) x := by
  have all := Assembly.waiting_start rows
  have visited {x : Int} : x ∈ b.visited ↔ x ∈ f.labels.map (·.1.id) := by
    simp [h.mem_visited, Assembly.start]
  constructor
  · intro hx
    obtain ⟨l, hl, rfl⟩ := List.mem_map.1 (visited.1 hx)
    refine Forest.forall_mem_labels (P := fun l => Reached rows (ls.map (·.1.id)) l.1.id) ?_ ?_ l hl
    · intro l hl
      exact .start (List.mem_map_of_mem (h.roots_sublist.subset hl))
    · intro b hb reached m hm
      have hm := List.mem_filter.1 ((h.linked hb).subset hm)
      obtain ⟨named, other⟩ := Row.isBelow_iff.1 hm.2
      exact .link (mem_of_mem_zipIdx (all ▸ hm.1)) (named ▸ reached) other
  · intro reached
    induction reached with
    | start hx =>
      obtain ⟨l, hl, rfl⟩ := List.mem_map.1 hx
      exact h.settled (all ▸ known hl) (h.cleared hl)
    | link hrow _ other ih =>
      obtain ⟨l, hl, rfl⟩ := exists_mem_zipIdx hrow
      refine h.settled (all ▸ hl) ?_
      intro still
      exact other (h.closed still (visited.1 ih))

/-- A row whose parent is missing is looked at only once, as a root, and is one then unless its
number has a node. -/
theorem mem_roots_iff (h : Gathers (.start rows) (rows.zipIdx.filter fun l => l.1.isRoot rows) f b)
    {place : Nat} {row : Row} (found : rows[place]? = some row)
    (dangles : ∀ other ∈ rows, other.id ≠ row.parent) :
    (row, place) ∈ f.roots ↔
      ¬ Reached rows (((rows.take place).filter (Row.isRoot rows)).map Row.id) row.id := by
  have all := Assembly.waiting_start rows
  have hl : (row, place) ∈ rows.zipIdx := List.mem_zipIdx_iff_getElem?.2 found
  have root : row.isRoot rows = true := Row.isRoot_iff.2 (.inr dangles)
  have nodup : rows.zipIdx.Nodup := (List.nodup_zipIdx_map_snd rows).of_map _
  rw [← map_id_filter_zipIdx]
  rw [zipIdx_eq_of_getElem? found] at h nodup
  rw [List.filter_append, List.filter_cons, if_pos root] at h
  obtain ⟨nodupe, nodupl, apart⟩ := List.nodup_append.1 nodup
  have early : (row, place) ∉ (rows.take place).zipIdx.filter fun l => l.1.isRoot rows :=
    fun hl => apart _ (List.mem_filter.1 hl).1 _ (List.mem_cons_self ..) rfl
  have late : (row, place) ∉
      ((rows.drop (place + 1)).zipIdx (place + 1)).filter fun l => l.1.isRoot rows :=
    fun hl => (List.nodup_cons.1 nodupl).1 (List.mem_filter.1 hl).1
  -- what stands before the row is gathered first, and leaves the row in its place
  obtain ⟨g, c, k, hg, hk, rfl⟩ := h.split
  have known : (rows.take place).zipIdx.filter (fun l => l.1.isRoot rows) ⊆ rows.zipIdx := by
    intro m hm
    rw [zipIdx_eq_of_getElem? found]
    exact List.mem_append_left _ (List.mem_filter.1 hm).1
  have unnamed : row.parent ∉ g.labels.map (·.1.id) := by
    intro named
    obtain ⟨m, hm, same⟩ := List.mem_map.1 named
    exact dangles _ (mem_of_mem_zipIdx (all ▸ hg.labels_subset hm)) same
  have waits : (row, place) ∈ c.waiting := hg.remains (all ▸ hl) early unnamed
  have other : (row, place) ∉ g.roots := fun hl => early (hg.roots_sublist.subset hl)
  rw [Forest.roots_append, List.mem_append, ← hg.mem_visited_iff_reached known]
  cases hk with
  | gone absent => exact absurd waits absent
  | repeated _ again hk =>
    have missing : (row, place) ∉ _ := fun hl => late (hk.roots_sublist.subset hl)
    simp [other, missing, again]
  | taken _ fresh =>
    simp [Forest.roots, fresh]

end Gathers

section Distinct

variable {rows : List Row} {f : Forest (Row × Nat)}

theorem eq_of_id (distinct : (rows.map Row.id).Nodup) {l m : Row × Nat} (hl : l ∈ rows.zipIdx)
    (hm : m ∈ rows.zipIdx) (same : l.1.id = m.1.id) : l = m := by
  have ids : (rows.zipIdx.map fun l => l.1.id) = rows.map Row.id := by
    conv_rhs => rw [← List.zipIdx_map_fst 0 rows]
    rw [List.map_map]
    rfl
  exact List.inj_on_of_nodup_map (ids ▸ distinct) hl hm same

theorem eq_of_sublist_of_subset {α : Type} {l m : List α} (h : l.Sublist m) (nodup : m.Nodup)
    (all : m ⊆ l) : l = m :=
  h.eq_of_length_le (nodup.length_le_of_subset all)

namespace Arranges

theorem complete (h : Arranges rows f) (distinct : (rows.map Row.id).Nodup)
    (all : ∀ row ∈ rows, row.id ∈ f.labels.map (·.1.id)) :
    f.labels.Perm rows.zipIdx ∧ f.roots = (rows.zipIdx.filter fun l => l.1.isRoot rows) ∧
      ∀ b ∈ f.branches, b.2.roots = rows.zipIdx.filter fun l => l.1.isBelow b.1.1.id := by
  have nodup : rows.zipIdx.Nodup := (List.nodup_zipIdx_map_snd rows).of_map _
  have labels {l : Row × Nat} (hl : l ∈ rows.zipIdx) : l ∈ f.labels := by
    obtain ⟨m, hm, same⟩ := List.mem_map.1 (all l.1 (mem_of_mem_zipIdx hl))
    exact eq_of_id distinct (h.known hm) hl same ▸ hm
  refine ⟨?_, eq_of_sublist_of_subset h.roots (nodup.filter _) ?_, ?_⟩
  · refine (List.perm_ext_iff_of_nodup (h.distinct.of_map _) nodup).2 fun l => ?_
    exact ⟨(h.known ·), labels⟩
  · intro l hl
    obtain ⟨hl, root⟩ := List.mem_filter.1 hl
    rcases Forest.mem_roots_or_below (labels hl) with h' | ⟨b, hb, h'⟩
    · exact h'
    · have below := (List.mem_filter.1 ((h.below b hb).subset h')).2
      have parent := mem_of_mem_zipIdx (h.known (Forest.mem_labels_of_mem_branches hb))
      exact absurd root (Row.not_isRoot_of_isBelow parent below)
  · intro b hb
    have parent := h.known (Forest.mem_labels_of_mem_branches hb)
    refine eq_of_sublist_of_subset (h.below b hb) (nodup.filter _) ?_
    intro l hl
    obtain ⟨hl, below⟩ := List.mem_filter.1 hl
    rcases Forest.mem_roots_or_below (labels hl) with h' | ⟨c, hc, h'⟩
    · have root := (List.mem_filter.1 (h.roots.subset h')).2
      exact absurd root (Row.not_isRoot_of_isBelow (mem_of_mem_zipIdx parent) below)
    · -- the row above `l` has the number of `b`, so it is `b`
      have named := (Row.isBelow_iff.1 (List.mem_filter.1 ((h.below c hc).subset h')).2).1
      have same : c.1.1.id = b.1.1.id := named.symm.trans (Row.isBelow_iff.1 below).1
      have ids : (f.branches.map fun b => b.1.1.id).Nodup := by
        have := h.distinct
        rwa [← Forest.branches_labels, List.map_map] at this
      exact List.inj_on_of_nodup_map ids hc hb same ▸ h'

end Arranges

theorem assemble_of_reached (distinct : (rows.map Row.id).Nodup)
    (reached : ∀ row ∈ rows, Reached rows ((rows.filter (Row.isRoot rows)).map Row.id) row.id) :
    ∃ f : Forest Row, assemble rows = f.nodes Row.node ∧ f.labels.Perm rows ∧
      f.roots = rows.filter (Row.isRoot rows) ∧
      ∀ b ∈ f.branches, b.2.roots = rows.filter (Row.isBelow b.1.id) := by
  obtain ⟨g, b, e, h⟩ := assemble_gathers rows
  have all : ∀ row ∈ rows, row.id ∈ g.labels.map (·.1.id) := by
    intro row hrow
    have visited := (h.mem_visited_iff_reached (fun _ h => (List.mem_filter.1 h).1)).2
      (by rw [map_id_filter_zipIdx]; exact reached row hrow)
    simpa [h.mem_visited, Assembly.start] using visited
  obtain ⟨perm, roots, below⟩ := h.arranges.complete distinct all
  refine ⟨g.map Prod.fst, ?_, ?_, ?_, ?_⟩
  · rw [e, Forest.nodes_map]
  · rw [Forest.labels_map, ← List.zipIdx_map_fst 0 rows]
    exact perm.map _
  · rw [Forest.roots_map, roots, map_fst_filter_zipIdx]
  · rw [Forest.branches_map, List.forall_mem_map]
    intro b hb
    rw [Forest.roots_map, below b hb, map_fst_filter_zipIdx rows (Row.isBelow b.1.1.id)]

/-- Where no chain of links closes, every row hangs from a root. -/
theorem reached_of_loopless (loopless : ∀ row, ¬ Relation.TransGen (LinksTo rows) row row) :
    ∀ row ∈ rows, Reached rows ((rows.filter (Row.isRoot rows)).map Row.id) row.id := by
  -- going up the links ends, since the rows are finitely many and no row is met again
  let up : {row // row ∈ rows} → {row // row ∈ rows} → Prop :=
    fun parent row => Relation.TransGen (LinksTo rows) row.1 parent.1
  have finite : Finite {row // row ∈ rows} := (List.finite_toSet rows).to_subtype
  have trans : IsTrans _ up := ⟨fun _ _ _ first second => second.trans first⟩
  have irrefl : Std.Irrefl up := ⟨fun row => loopless row.1⟩
  have ends : WellFounded up := Finite.wellFounded_of_trans_of_irrefl up
  have hangs (row : {row // row ∈ rows}) :
      Reached rows ((rows.filter (Row.isRoot rows)).map Row.id) row.1.id := by
    induction row using ends.induction with
    | _ row ih =>
      by_cases root : row.1.isRoot rows = true
      · exact .start (List.mem_map_of_mem (List.mem_filter.2 ⟨row.2, root⟩))
      · simp only [Row.isRoot_iff, not_or, not_forall, not_not] at root
        obtain ⟨other, parent, hparent, named⟩ := root
        have above := ih ⟨parent, hparent⟩ (.single ⟨row.2, hparent, named.symm, other⟩)
        exact .link row.2 (named ▸ above) other
  exact fun row hrow => hangs ⟨row, hrow⟩

end Distinct

end SqlReview.Plan.Sqlite
