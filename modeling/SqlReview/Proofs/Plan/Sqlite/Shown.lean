import SqlReview.Proofs.Plan.Sqlite.AnyRows
import SqlReview.Proofs.Plan.Sqlite.Indentation
import SqlReview.Proofs.Plan.Sqlite.RowForest
import SqlReview.Proofs.Text.Basic

/-!
Plans of any form that show the detail of a step. All of their nodes come from details, and the
detail that is shown has a node, whatever else is in the plan.
-/
namespace SqlReview.Plan.Sqlite

section Plans

/-- Where the detail of a step stands in a plan: behind what is drawn on a line, in the only row, or
in one of several rows, which has its number for itself and hangs from a root. -/
inductive Shows (detail : Text) : Json → Prop
  | line {text line : Text} (known : line ∈ Text.lines text)
      (drawn : Text.trim (line.dropWhile isDrawing) = detail) : Shows detail (.string text)
  | only {fields : List (Text × Json)} {d : Text} (read : rowDetail? (.object fields) = some d)
      (padded : Text.trim d = detail) : Shows detail (.object fields)
  | row {vs : List Json} {v : Json} {d : Text} {i : Nat} (known : vs[i]? = some v)
      (read : rowDetail? v = some d) (padded : Text.trim d = detail)
      (detailed : ∀ v ∈ vs, (rowDetail? v).isSome)
      (alone : ∀ other ∈ rowsOf vs, other.id = (rowOf i v).id → other = rowOf i v)
      (hangs : Reached (rowsOf vs) (rootIds (rowsOf vs)) (rowOf i v).id) : Shows detail (.array vs)

/-- All nodes of the tree come from details, and one of them from the given detail. -/
structure HasStep (tree : Tree) (detail : Text) : Prop where
  told : ∀ n ∈ tree.nodes, ∃ d, n.bare = nodeOf d
  shown : ∃ n ∈ tree.nodes, n.bare = nodeOf detail

variable {detail line text d : Text} {plan : Json} {vs : List Json}

theorem HasStep.of_visited {α : Type} {tree : Tree} {f : α → Node} {as : List α} {a : α}
    (visited : tree.nodes.map Node.bare = as.map f) (told : ∀ a ∈ as, ∃ d, f a = nodeOf d)
    (known : a ∈ as) (here : f a = nodeOf detail) : HasStep tree detail where
  told n hn := by
    have listed := List.mem_map_of_mem (f := Node.bare) hn
    rw [visited] at listed
    obtain ⟨b, hb, node⟩ := List.mem_map.1 listed
    obtain ⟨d, same⟩ := told b hb
    exact ⟨d, node.symm.trans same⟩
  shown := by
    apply List.mem_map.1
    rw [visited, ← here]
    exact List.mem_map_of_mem known

theorem nodeOf_trim (d : Text) : nodeOf (Text.trim d) = nodeOf d := by
  rw [nodeOf, nodeOf, Text.trim_eq_self (Text.tight_trim d)]

theorem HasStep.trim {tree : Tree} (h : HasStep tree d) : HasStep tree (Text.trim d) where
  told := h.told
  shown := by
    rw [nodeOf_trim]
    exact h.shown

theorem trim_dropWhile_isDrawing (plain : ∀ c ∈ (Text.trim line).head?, isDrawing c = false) :
    Text.trim (line.dropWhile isDrawing) = Text.trim line := by
  obtain ⟨before, after, e, blank, blank'⟩ := Text.exists_trim line
  have tight := Text.tight_trim line
  generalize Text.trim line = s at plain e tight ⊢
  subst e
  have blank_ : ∀ c ∈ before.dropWhile isDrawing, Text.isBlank c = true :=
    fun c hc => blank c ((List.dropWhile_suffix _).subset hc)
  rw [List.dropWhile_append]
  split
  · cases s with
    | nil =>
      exact Text.trim_padded (List.forall_mem_nil _) tight
        fun c hc => blank' c ((List.dropWhile_suffix _).subset hc)
    | cons c s =>
      rw [List.cons_append, List.dropWhile_cons, if_neg (by simp [plain c rfl])]
      exact Text.trim_padded (List.forall_mem_nil _) tight blank'
  · exact Text.trim_padded blank_ tight blank'

theorem isKept_of_drawn (filled : Text.trim (line.dropWhile isDrawing) ≠ [])
    (other : Text.trim (line.dropWhile isDrawing) ≠ header) : isKept line = true := by
  have unlike {s : Text} (plain : ∀ c ∈ s.head?, isDrawing c = false)
      (ne : Text.trim (line.dropWhile isDrawing) ≠ s) : Text.trim line ≠ s := by
    rintro rfl
    exact ne (trim_dropWhile_isDrawing plain)
  have solid : ∀ c ∈ header.head?, isDrawing c = false := by
    rintro _ ⟨⟩
    decide
  have filled' := unlike (s := []) nofun filled
  have other' := unlike solid other
  simp [isKept, filled', other']

theorem hasStep_of_text (known : line ∈ Text.lines text) (kept : isKept line = true) :
    ∃ tree, normalize .sqlite (.string text) = .ok tree ∧
      HasStep tree (line.dropWhile isDrawing) := by
  refine ⟨⟨.sqlite, readOutline text⟩, rfl, ?_⟩
  have kept : line ∈ keptLines text := List.mem_filter.2 ⟨known, kept⟩
  exact .of_visited (map_bare_visit_readOutline text) (fun _ _ => ⟨_, rfl⟩) kept rfl

theorem hasStep_of_rows {v : Json} {i : Nat} (read : rowDetail? v = some d)
    (detailed : ∀ v ∈ vs, (rowDetail? v).isSome)
    (alone : ∀ other ∈ rowsOf vs, other.id = (rowOf i v).id → other = rowOf i v)
    (hangs : Reached (rowsOf vs) (rootIds (rowsOf vs)) (rowOf i v).id) :
    ∃ tree, normalize .sqlite (.array vs) = .ok tree ∧ HasStep tree d := by
  obtain ⟨forest, b, e, h⟩ := assemble_gathers (rowsOf vs)
  have told : ∀ l ∈ forest.labels, ∃ d, l.1.node = nodeOf d := by
    intro l hl
    obtain ⟨j, _, row⟩ := List.mem_mapIdx.1 (mem_of_mem_zipIdx (h.arranges.known hl))
    exact ⟨_, congrArg Row.node row.symm⟩
  have leaf : ∀ l ∈ forest.labels, l.1.node.children = [] := by
    intro l hl
    obtain ⟨d, node⟩ := told l hl
    rw [node]
    rfl
  -- the number of the row has a node, and that is the row's
  rw [rootIds, ← map_id_filter_zipIdx] at hangs
  have numbered := (h.mem_visited_iff_reached fun _ hl => (List.mem_filter.1 hl).1).2 hangs
  obtain ⟨l, hl, id⟩ : ∃ l ∈ forest.labels, l.1.id = (rowOf i v).id := by
    simpa [h.mem_visited, Assembly.start] using numbered
  have node : l.1.node = nodeOf d := by
    rw [alone l.1 (mem_of_mem_zipIdx (h.arranges.known hl)) id, rowOf, read, Option.getD_some]
  have visited := Forest.map_bare_preorderAll_of_mem leaf
  rw [← Node.visit_eq_preorderAll, ← e] at visited
  exact ⟨_, normalize_rows detailed, .of_visited visited told hl node⟩

theorem normalize_only (fields : List (Text × Json)) :
    normalize .sqlite (.object fields) = normalize .sqlite (.array [.object fields]) := rfl

theorem reached_only (v : Json) :
    Reached (rowsOf [v]) (rootIds (rowsOf [v])) (rowOf 0 v).id := by
  refine closed_reached.root (rowOf 0 v) (List.mem_singleton_self _) ?_
  apply Decidable.or_iff_not_imp_left.2
  intro other row hrow same
  rw [List.mem_singleton.1 hrow] at same
  exact other same.symm

/-- A plan that shows a step is read, and has a node for it. -/
theorem Shows.hasStep (h : Shows detail plan) (filled : detail ≠ []) (other : detail ≠ header) :
    ∃ tree, normalize .sqlite plan = .ok tree ∧ HasStep tree detail := by
  cases h with
  | line known drawn =>
    subst drawn
    obtain ⟨tree, accepted, step⟩ := hasStep_of_text known (isKept_of_drawn filled other)
    exact ⟨tree, accepted, step.trim⟩
  | @only fields d read padded =>
    subst padded
    have detailed : ∀ v ∈ [Json.object fields], (rowDetail? v).isSome := by
      rw [List.forall_mem_singleton]
      exact Option.isSome_of_mem read
    obtain ⟨tree, accepted, step⟩ := hasStep_of_rows read detailed
      (fun _ hrow _ => List.mem_singleton.1 hrow) (reached_only (.object fields))
    exact ⟨tree, (normalize_only fields).trans accepted, step.trim⟩
  | row _ read padded detailed alone hangs =>
    subst padded
    obtain ⟨tree, accepted, step⟩ := hasStep_of_rows read detailed alone hangs
    exact ⟨tree, accepted, step.trim⟩

end Plans

end SqlReview.Plan.Sqlite
