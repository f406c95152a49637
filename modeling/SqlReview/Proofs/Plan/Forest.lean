import SqlReview.Plan.Tree

/-!
Forests whose trees carry labels. Readers of plans are compared with the forest that they are meant
to build, and every node of a plan is told by the label it comes from.
-/
namespace SqlReview.Plan

/-- The first tree, given by its label and the forest below it, and the trees after it. -/
inductive Forest (α : Type) where
  | empty
  | tree (label : α) (below rest : Forest α)
deriving Repr, DecidableEq

namespace Forest

variable {α β : Type}

def roots : Forest α → List α
  | empty => []
  | tree a _ rest => a :: rest.roots

def labels : Forest α → List α
  | empty => []
  | tree a below rest => a :: (below.labels ++ rest.labels)

def branches : Forest α → List (α × Forest α)
  | empty => []
  | tree a below rest => (a, below) :: (below.branches ++ rest.branches)

def append : Forest α → Forest α → Forest α
  | empty, g => g
  | tree a below rest, g => tree a below (rest.append g)

def map (f : α → β) : Forest α → Forest β
  | empty => empty
  | tree a below rest => tree (f a) (below.map f) (rest.map f)

/-- The forest as nodes of a plan; what is below a label comes after the children its node has. -/
def nodes (f : α → Node) : Forest α → List Node
  | empty => []
  | tree a below rest =>
    { f a with children := (f a).children ++ below.nodes f } :: rest.nodes f

theorem roots_append (f g : Forest α) : (f.append g).roots = f.roots ++ g.roots := by
  induction f with
  | empty => rfl
  | tree a below rest _ ih => simp only [append, roots, ih, List.cons_append]

theorem nodes_append (h : α → Node) (f g : Forest α) :
    (f.append g).nodes h = f.nodes h ++ g.nodes h := by
  induction f with
  | empty => rfl
  | tree a below rest _ ih => simp only [append, nodes, ih, List.cons_append]

theorem roots_map (h : α → β) (f : Forest α) : (f.map h).roots = f.roots.map h := by
  induction f with
  | empty => rfl
  | tree a below rest _ ih => simp only [map, roots, ih, List.map_cons]

theorem labels_map (h : α → β) (f : Forest α) : (f.map h).labels = f.labels.map h := by
  induction f with
  | empty => rfl
  | tree a below rest ihb ihr => simp only [map, labels, ihb, ihr, List.map_cons, List.map_append]

theorem branches_map (h : α → β) (f : Forest α) :
    (f.map h).branches = f.branches.map fun b => (h b.1, b.2.map h) := by
  induction f with
  | empty => rfl
  | tree a below rest ihb ihr =>
    simp only [map, branches, ihb, ihr, List.map_cons, List.map_append]

theorem nodes_map (h : α → β) (k : β → Node) (f : Forest α) :
    (f.map h).nodes k = f.nodes fun a => k (h a) := by
  induction f with
  | empty => rfl
  | tree a below rest ihb ihr => simp only [map, nodes, ihb, ihr]

theorem branches_labels (f : Forest α) : f.branches.map Prod.fst = f.labels := by
  induction f with
  | empty => rfl
  | tree a below rest ihb ihr =>
    simp only [branches, labels, List.map_cons, List.map_append, ihb, ihr]

theorem mem_labels_of_mem_branches {f : Forest α} {b : α × Forest α} (h : b ∈ f.branches) :
    b.1 ∈ f.labels := by
  rw [← branches_labels]
  exact List.mem_map_of_mem h

theorem mem_roots_or_below {f : Forest α} {a : α} (h : a ∈ f.labels) :
    a ∈ f.roots ∨ ∃ b ∈ f.branches, a ∈ b.2.roots := by
  induction f with
  | empty => cases h
  | tree c below rest ihb ihr =>
    simp only [labels, List.mem_cons, List.mem_append] at h
    simp only [roots, branches, List.mem_cons, List.mem_append]
    rcases h with rfl | h | h
    · exact .inl (.inl rfl)
    · rcases ihb h with h | ⟨b, hb, h⟩
      · exact .inr ⟨(c, below), .inl rfl, h⟩
      · exact .inr ⟨b, .inr (.inl hb), h⟩
    · rcases ihr h with h | ⟨b, hb, h⟩
      · exact .inl (.inr h)
      · exact .inr ⟨b, .inr (.inr hb), h⟩

theorem forall_mem_labels {f : Forest α} {P : α → Prop} (root : ∀ a ∈ f.roots, P a)
    (step : ∀ b ∈ f.branches, P b.1 → ∀ a ∈ b.2.roots, P a) : ∀ a ∈ f.labels, P a := by
  induction f with
  | empty => simp [labels]
  | tree c below rest ihb ihr =>
    simp only [roots, branches, labels, List.forall_mem_cons, List.forall_mem_append]
      at root step ⊢
    obtain ⟨first, root⟩ := root
    obtain ⟨stepc, stepb, stepr⟩ := step
    exact ⟨first, ihb (stepc first) stepb, ihr root stepr⟩

/-- A forest is told by its roots and what stands right below each label. -/
theorem eq_of_roots {f g : Forest α} (kids : α → List α) (same : f.roots = g.roots)
    (hf : ∀ b ∈ f.branches, b.2.roots = kids b.1) (hg : ∀ b ∈ g.branches, b.2.roots = kids b.1) :
    f = g := by
  induction f generalizing g with
  | empty =>
    cases g with
    | empty => rfl
    | tree => cases same
  | tree a below rest ihb ihr =>
    cases g with
    | empty => cases same
    | tree a' below' rest' =>
      simp only [roots, List.cons.injEq] at same
      simp only [branches, List.forall_mem_cons, List.forall_mem_append] at hf hg
      obtain ⟨rfl, same⟩ := same
      have hb := ihb (hf.1.trans hg.1.symm) hf.2.1 hg.2.1
      have hr := ihr same hf.2.2 hg.2.2
      rw [hb, hr]

end Forest

end SqlReview.Plan
