import SqlReview.Proofs.Plan.Forest

/-!
The order in which the nodes of a plan are visited: a node comes before those below it, which keep
their order. A forest of labels is visited label by label.
-/
namespace SqlReview.Plan

namespace Node

def bare (n : Node) : Node := { n with children := [] }

theorem bare_eq_self {n : Node} (leaf : n.children = []) : n.bare = n := by
  cases n
  cases leaf
  rfl

theorem preorderAll_append (ns ms : List Node) :
    preorderAll (ns ++ ms) = preorderAll ns ++ preorderAll ms := by
  induction ns with
  | nil => rfl
  | cons n ns ih => simp only [List.cons_append, preorderAll, ih, List.append_assoc]

theorem preorder_eq (n : Node) : n.preorder = n :: preorderAll n.children := by
  cases n
  rw [preorder]

theorem visit_eq_preorderAll (stack : List Node) : visit stack = preorderAll stack := by
  fun_induction visit stack with
  | case1 => rfl
  | case2 n rest ih =>
    rw [ih, preorderAll_append, preorderAll, preorder_eq, List.cons_append]

def listing (n : Node) : List Node := n.preorder.map bare

theorem map_bare_preorderAll (ns : List Node) :
    (preorderAll ns).map bare = (ns.map listing).flatten := by
  induction ns with
  | nil => rfl
  | cons n ns ih =>
    rw [preorderAll, List.map_append, ih, List.map_cons, List.flatten_cons]
    rfl

theorem listing_eq (n : Node) : n.listing = n.bare :: (n.children.map listing).flatten := by
  unfold listing
  rw [preorder_eq, List.map_cons, map_bare_preorderAll]
  rfl

end Node

section Forest

variable {α : Type} {f : α → Node}

/-- The nodes made of a forest are visited in the order of its labels. -/
theorem Forest.map_bare_preorderAll_of_mem {t : Forest α}
    (leaf : ∀ a ∈ t.labels, (f a).children = []) :
    (Node.preorderAll (t.nodes f)).map Node.bare = t.labels.map f := by
  induction t with
  | empty => rfl
  | tree a below rest ihb ihr =>
    rw [labels, List.forall_mem_cons, List.forall_mem_append] at leaf
    obtain ⟨first, leafb, leafr⟩ := leaf
    have alone : ({ f a with children := [] } : Node) = f a := Node.bare_eq_self first
    rw [nodes, Node.preorderAll, Node.preorder_eq, List.cons_append, List.map_cons,
      List.map_append, labels, List.map_cons, List.map_append, first, List.nil_append, ihb leafb,
      ihr leafr]
    exact congrArg (· :: _) alone

theorem Forest.map_bare_preorderAll (leaf : ∀ a, (f a).children = []) (t : Forest α) :
    (Node.preorderAll (t.nodes f)).map Node.bare = t.labels.map f :=
  map_bare_preorderAll_of_mem fun a _ => leaf a

end Forest

end SqlReview.Plan
