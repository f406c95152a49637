import Mathlib.Order.Bounds.Defs
import SqlReview.Proofs.Plan.Sqlite.Links

/-!
What becomes of rows whatever their numbers and links are. Rows that repeat a number, name
themselves, name each other in a circle or name no row are assembled all the same: a number has one
node if links lead to it from a root and none otherwise, and the depth that is allowed for never
cuts a tree short.
-/
namespace SqlReview.Plan.Sqlite

section Numbers

variable {rows : List Row}

/-- A set of numbers that has those of the roots and, with that of a row, those right below it. -/
structure Closed (rows : List Row) (numbers : Set Int) : Prop where
  root : ∀ row ∈ rows,
    (row.parent = row.id ∨ ∀ other ∈ rows, other.id ≠ row.parent) → row.id ∈ numbers
  below : ∀ row ∈ rows, row.parent ∈ numbers → row.parent ≠ row.id → row.id ∈ numbers

def rootIds (rows : List Row) : List Int := (rows.filter (Row.isRoot rows)).map Row.id

theorem closed_reached : Closed rows {x | Reached rows (rootIds rows) x} where
  root _ hrow root :=
    .start (List.mem_map_of_mem (List.mem_filter.2 ⟨hrow, Row.isRoot_iff.2 root⟩))
  below _ hrow above other := .link hrow above other

theorem Closed.mem_of_reached {numbers : Set Int} (h : Closed rows numbers) {x : Int}
    (reached : Reached rows (rootIds rows) x) : x ∈ numbers := by
  induction reached with
  | start hx =>
    obtain ⟨row, hrow, rfl⟩ := List.mem_map.1 hx
    obtain ⟨hrow, root⟩ := List.mem_filter.1 hrow
    exact h.root row hrow (Row.isRoot_iff.1 root)
  | link hrow _ other ih => exact h.below _ hrow ih other

theorem isLeast_reached :
    IsLeast {numbers | Closed rows numbers} {x | Reached rows (rootIds rows) x} :=
  ⟨closed_reached, fun _ h _ reached => h.mem_of_reached reached⟩

end Numbers

/-- Rows of any numbers and links make a forest in which no row and no number stands twice, and in
which a row below another one names it. The numbers in it are the least set that has those of the
roots and all that links lead to. Each level takes a row out, so no number of levels from that of
the rows on is ever used up. -/
theorem assemble_any (rows : List Row) :
    ∃ forest : Forest (Row × Nat),
      (∀ levels, rows.length ≤ levels →
        assembleWithin levels rows = forest.nodes (·.1.node)) ∧
      assemble rows = forest.nodes (·.1.node) ∧
      forest.labels ⊆ rows.zipIdx ∧ (forest.labels.map Prod.snd).Nodup ∧
      (forest.labels.map (·.1.id)).Nodup ∧
      IsLeast {numbers | Closed rows numbers} {x | x ∈ forest.labels.map (·.1.id)} ∧
      ∀ b ∈ forest.branches, ∀ l ∈ b.2.roots, l.1.parent = b.1.1.id := by
  obtain ⟨forest, b, e, h⟩ := assembleWithin_gathers rows (Nat.le_refl rows.length)
  have arranges := h.arranges
  refine ⟨forest, ?_, e, arranges.known, ?_, arranges.distinct, ?_, ?_⟩
  · intro levels enough
    obtain ⟨g, c, e', k⟩ := assembleWithin_gathers rows enough
    rw [e', (h.unique k).1]
  · -- rows of one place are the same row, and that has one number
    refine (List.pairwise_map.1 arranges.distinct).imp_of_mem ?_ |> List.pairwise_map.2
    intro l m hl hm other same
    have found := List.mem_zipIdx_iff_getElem?.1 (arranges.known hl)
    rw [same, List.mem_zipIdx_iff_getElem?.1 (arranges.known hm)] at found
    exact other (congrArg Row.id (Option.some.inj found)).symm
  · have numbers : {x | x ∈ forest.labels.map (·.1.id)} =
        {x | Reached rows (rootIds rows) x} := by
      ext x
      have visited : x ∈ b.visited ↔ x ∈ forest.labels.map (·.1.id) := by
        simp [h.mem_visited, Assembly.start]
      rw [Set.mem_ofPred_eq, ← visited, Set.mem_ofPred_eq, rootIds, ← map_id_filter_zipIdx]
      exact h.mem_visited_iff_reached fun _ hl => (List.mem_filter.1 hl).1
    rw [numbers]
    exact isLeast_reached
  · intro b hb l hl
    have below := (List.mem_filter.1 ((arranges.below b hb).subset hl)).2
    exact (Row.isBelow_iff.1 below).1

def tangled : List Row :=
  [⟨1, 0, nodeOf "SCAN a"⟩, ⟨1, 9, nodeOf "SCAN b"⟩, ⟨2, 1, nodeOf "SCAN c"⟩,
    ⟨3, 4, nodeOf "SCAN d"⟩, ⟨4, 3, nodeOf "SCAN e"⟩, ⟨5, 5, nodeOf "SCAN f"⟩,
    ⟨2, 5, nodeOf "SCAN g"⟩]

theorem assemble_any_tangled :
    ∃ forest : Forest (Row × Nat), assembleWithin 40 tangled = forest.nodes (·.1.node) ∧
      (1 : Int) ∈ forest.labels.map (·.1.id) ∧ (3 : Int) ∉ forest.labels.map (·.1.id) := by
  obtain ⟨forest, within, _, _, _, _, least, _⟩ := assemble_any tangled
  refine ⟨forest, within 40 (by decide), ?_, ?_⟩
  · exact least.1.root ⟨1, 0, nodeOf "SCAN a"⟩ (List.mem_cons_self ..) (.inr (by decide))
  · intro named
    have closed : Closed tangled {x | x = 1 ∨ x = 2 ∨ x = 5} := ⟨by decide, by decide⟩
    have few : (3 : Int) = 1 ∨ (3 : Int) = 2 ∨ (3 : Int) = 5 := least.2 closed named
    omega

end SqlReview.Plan.Sqlite
