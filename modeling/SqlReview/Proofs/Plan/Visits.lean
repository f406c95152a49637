import Mathlib.Algebra.BigOperators.Group.List.Basic
import Mathlib.Algebra.GroupWithZero.Nat
import Mathlib.Data.List.Induction
import SqlReview.Proofs.Plan.Preorder

/-!
The visit of a plan. A cursor that keeps the waiting nodes with the next one last, and puts children
on in reverse, comes to its end on every plan. It passes the nodes in the order of their places: a
place is a path of positions, first among the roots and then among children, and places are ordered
as words are, a beginning of a path before the path.
-/
namespace SqlReview.Plan

namespace Node

@[elab_as_elim]
theorem forest_induction {motive : List Node → Prop} (nil : motive [])
    (cons : ∀ n ns, motive n.children → motive ns → motive (n :: ns)) (ns : List Node) :
    motive ns := by
  induction size : countAll ns using Nat.strongRecOn generalizing ns with
  | ind size ih =>
    cases ns with
    | nil => exact nil
    | cons n ns =>
      rw [countAll, count_eq] at size
      exact cons n ns (ih _ (by omega) n.children rfl) (ih _ (by omega) ns rfl)

theorem length_preorderAll (ns : List Node) : (preorderAll ns).length = countAll ns := by
  induction ns using forest_induction with
  | nil => rfl
  | cons n ns below others =>
    rw [preorderAll, preorder_eq, countAll, count_eq, List.length_append, List.length_cons, below,
      others, Nat.add_comm 1]

theorem countAll_reverse (ns : List Node) : countAll ns.reverse = countAll ns := by
  induction ns with
  | nil => rfl
  | cons n ns ih =>
    rw [List.reverse_cons, countAll_append, ih, countAll, countAll, countAll]
    omega

theorem count_withChild (n c : Node) : (n.withChild c).count = n.count + c.count := by
  rw [count_eq, count_eq n, withChild, countAll_append, countAll, countAll]
  omega

theorem sum_countP_operation (ns : List Node) :
    (Operation.all.map fun o => ns.countP (·.operation = o)).sum = ns.length := by
  induction ns with
  | nil => rfl
  | cons n ns ih =>
    have own : (Operation.all.map fun o => if n.operation = o then 1 else 0).sum = 1 := by
      cases n.operation <;> rfl
    simp only [List.countP_cons, decide_eq_true_eq, List.sum_map_add, ih, own, List.length_cons]

section Places

variable {ns : List Node} {path : List Nat} {i : Nat}

def among? (ns : List Node) : List Nat → Option Node
  | [] => none
  | [i] => ns[i]?
  | i :: j :: path => ns[i]?.bind fun n => among? n.children (j :: path)

def placesFrom (i : Nat) : List Node → List (List Nat)
  | [] => []
  | ⟨_, _, _, _, _, children⟩ :: ns =>
    [i] :: (placesFrom 0 children).map (i :: ·) ++ placesFrom (i + 1) ns

theorem placesFrom_nil (i : Nat) : placesFrom i [] = [] := by
  rw [placesFrom]

theorem placesFrom_cons (i : Nat) (n : Node) (ns : List Node) : placesFrom i (n :: ns) =
    [i] :: (placesFrom 0 n.children).map (i :: ·) ++ placesFrom (i + 1) ns := by
  cases n
  rw [placesFrom]

theorem among?_cons (ns : List Node) (i : Nat) (nonempty : path ≠ []) :
    among? ns (i :: path) = ns[i]?.bind fun n => among? n.children path := by
  cases path with
  | nil => contradiction
  | cons j path => rfl

theorem exists_of_mem_placesFrom (h : path ∈ placesFrom i ns) :
    ∃ j rest, path = j :: rest ∧ i ≤ j := by
  induction ns generalizing i with
  | nil =>
    rw [placesFrom_nil] at h
    cases h
  | cons n ns ih =>
    rw [placesFrom_cons, List.cons_append, List.mem_cons, List.mem_append, List.mem_map] at h
    obtain rfl | ⟨rest, _, rfl⟩ | h := h
    · exact ⟨i, [], rfl, Nat.le_refl i⟩
    · exact ⟨i, rest, rfl, Nat.le_refl i⟩
    · obtain ⟨j, rest, e, le⟩ := ih h
      exact ⟨j, rest, e, by omega⟩

theorem ne_nil_of_mem_placesFrom (h : path ∈ placesFrom i ns) : path ≠ [] := by
  obtain ⟨j, rest, rfl, _⟩ := exists_of_mem_placesFrom h
  exact List.cons_ne_nil j rest

/-- In the order of their places the nodes are those of the preorder. -/
theorem map_among?_placesFrom (front ns : List Node) :
    (placesFrom front.length ns).map (among? (front ++ ns)) = (preorderAll ns).map some := by
  induction ns using forest_induction generalizing front with
  | nil =>
    rw [placesFrom_nil]
    rfl
  | cons n ns below others =>
    have here : (front ++ n :: ns)[front.length]? = some n := by simp
    have under : ((placesFrom 0 n.children).map (front.length :: ·)).map (among? (front ++ n :: ns))
        = (preorderAll n.children).map some := by
      rw [← below [], List.map_map]
      apply List.map_congr_left
      intro path h
      exact (among?_cons _ _ (ne_nil_of_mem_placesFrom h)).trans (by rw [here]; rfl)
    have after := others (front ++ [n])
    rw [List.length_append, List.length_singleton, List.append_assoc, List.singleton_append]
      at after
    rw [placesFrom_cons, preorderAll, preorder_eq, List.cons_append, List.map_cons, List.map_append,
      under, after, List.cons_append, List.map_cons, List.map_append]
    exact congrArg (· :: _) here

theorem mem_placesFrom_iff : path ∈ placesFrom i ns ↔
    ∃ j rest, path = (i + j) :: rest ∧ (among? ns (j :: rest)).isSome := by
  induction ns using forest_induction generalizing i path with
  | nil =>
    rw [placesFrom_nil]
    refine ⟨fun h => (List.not_mem_nil h).elim, ?_⟩
    rintro ⟨j, rest, rfl, there⟩
    cases rest <;> simp [among?] at there
  | cons n ns below others =>
    have later (j : Nat) (rest : List Nat) :
        among? (n :: ns) ((j + 1) :: rest) = among? ns (j :: rest) := by
      cases rest <;> rfl
    have under (rest : List Nat) : rest ∈ placesFrom 0 n.children ↔
        (among? n.children rest).isSome := by
      rw [below]
      cases rest with
      | nil => simp [among?]
      | cons k rest => simp
    rw [placesFrom_cons, List.cons_append, List.mem_cons, List.mem_append, List.mem_map, others]
    constructor
    · rintro (rfl | ⟨rest, h, rfl⟩ | ⟨j, rest, rfl, there⟩)
      · exact ⟨0, [], rfl, rfl⟩
      · refine ⟨0, rest, rfl, ?_⟩
        rw [among?_cons _ _ (ne_nil_of_mem_placesFrom h)]
        exact (under rest).1 h
      · exact ⟨j + 1, rest, by rw [Nat.add_right_comm, Nat.add_assoc], later j rest ▸ there⟩
    · rintro ⟨j, rest, rfl, there⟩
      cases j with
      | zero =>
        cases rest with
        | nil => exact .inl rfl
        | cons k rest => exact .inr (.inl ⟨k :: rest, (under _).2 there, rfl⟩)
      | succ j =>
        exact .inr (.inr ⟨j, rest, by rw [Nat.add_right_comm, Nat.add_assoc],
          later j rest ▸ there⟩)

theorem pairwise_placesFrom (i : Nat) (ns : List Node) : (placesFrom i ns).Pairwise (· < ·) := by
  induction ns using forest_induction generalizing i with
  | nil =>
    rw [placesFrom_nil]
    exact List.Pairwise.nil
  | cons n ns below others =>
    have after {first : List Nat} {path : List Nat} (h : path ∈ placesFrom (i + 1) ns) :
        i :: first < path := by
      obtain ⟨j, rest, rfl, le⟩ := exists_of_mem_placesFrom h
      exact List.cons_lt_cons_iff.2 (.inl le)
    rw [placesFrom_cons, List.cons_append, List.pairwise_cons, List.pairwise_append,
      List.pairwise_map]
    refine ⟨?_, ?_, others (i + 1), ?_⟩
    · intro path h
      rcases List.mem_append.1 h with h | h
      · obtain ⟨rest, there, rfl⟩ := List.mem_map.1 h
        obtain ⟨k, rest, rfl, _⟩ := exists_of_mem_placesFrom there
        exact List.cons_lt_cons_iff.2 (.inr ⟨rfl, List.nil_lt_cons k rest⟩)
      · exact after h
    · exact (below 0).imp fun less => List.cons_lt_cons_iff.2 (.inr ⟨rfl, less⟩)
    · intro path h path' h'
      obtain ⟨rest, _, rfl⟩ := List.mem_map.1 h
      exact after h'

end Places

end Node

/-- The nodes that wait to be visited, the next one last. -/
structure Cursor where
  waiting : List Node

namespace Cursor

def ofRoots (roots : List Node) : Cursor := ⟨roots.reverse⟩

/-- Takes the next node off. Its children are put on in reverse, so that the first comes next. -/
def next? (c : Cursor) : Option (Node × Cursor) :=
  c.waiting.getLast?.map fun n => (n, ⟨c.waiting.dropLast ++ n.children.reverse⟩)

/-- All nodes that are still to come, those below the waiting ones included. -/
def size (c : Cursor) : Nat := Node.countAll c.waiting

inductive Yields : Cursor → List Node → Prop
  | done {c : Cursor} (ended : c.next? = none) : Yields c []
  | more {c c' : Cursor} {n : Node} {ns : List Node} (taken : c.next? = some (n, c'))
      (later : Yields c' ns) : Yields c (n :: ns)

theorem next?_ofRoots_nil : (ofRoots []).next? = none := rfl

theorem next?_ofRoots_cons (n : Node) (ns : List Node) :
    (ofRoots (n :: ns)).next? = some (n, ofRoots (n.children ++ ns)) := by
  simp [ofRoots, next?]

/-- Each step brings the end one node nearer, whatever is waiting. -/
theorem size_eq (c : Cursor) : c.size = c.next?.elim 0 fun taken => taken.2.size + 1 := by
  obtain ⟨waiting⟩ := c
  cases waiting using List.reverseRecOn with
  | nil => rfl
  | append_singleton front n =>
    have taken : (Cursor.mk (front ++ [n])).next? =
        some (n, ⟨front ++ n.children.reverse⟩) := by
      simp [next?]
    rw [taken, Option.elim_some, size, size, Node.countAll_append, Node.countAll_append,
      Node.countAll_reverse, Node.countAll, Node.countAll, Node.count_eq]
    omega

theorem yields_visit (ns : List Node) : (ofRoots ns).Yields (Node.visit ns) := by
  fun_induction Node.visit ns with
  | case1 => exact .done next?_ofRoots_nil
  | case2 n rest ih => exact .more (next?_ofRoots_cons n rest) ih

theorem Yields.unique {c : Cursor} {ns ns' : List Node} (h : c.Yields ns) (h' : c.Yields ns') :
    ns = ns' := by
  induction h generalizing ns' with
  | done ended =>
    cases h' with
    | done => rfl
    | more taken => rw [ended] at taken; cases taken
  | more taken _ ih =>
    cases h' with
    | done ended => rw [ended] at taken; cases taken
    | more taken' later' =>
      rw [taken] at taken'
      cases taken'
      rw [ih later']

end Cursor

namespace Tree

def places (t : Tree) : List (List Nat) := Node.placesFrom 0 t.roots

def node? (t : Tree) (path : List Nat) : Option Node := Node.among? t.roots path

/-- Every step of the cursor leaves one node less to come, and from the roots it visits a plan in
preorder: every place once, in the order of places. As many nodes are visited as are counted, each
counts for one operation, and a child that is added adds its nodes. -/
theorem nodes_preorder (t : Tree) :
    (∀ c : Cursor, c.size = c.next?.elim 0 fun taken => taken.2.size + 1) ∧
      (∀ ns, (Cursor.ofRoots t.roots).Yields ns ↔ ns = t.nodes) ∧
      t.nodes = Node.preorderAll t.roots ∧
      t.nodes.map some = t.places.map t.node? ∧
      t.places.Pairwise (· < ·) ∧
      (∀ path, path ∈ t.places ↔ (t.node? path).isSome) ∧
      t.nodes.length = t.nodeCount ∧
      (Operation.all.map fun o => t.count o).sum = t.nodeCount ∧
      (∀ o, t.contains o = true ↔ 0 < t.count o) ∧
      ∀ n c : Node, (n.withChild c).count = n.count + c.count := by
  have visited : t.nodes = Node.preorderAll t.roots := Node.visit_eq_preorderAll t.roots
  have counted : t.nodes.length = t.nodeCount := by
    rw [visited]
    exact Node.length_preorderAll t.roots
  refine ⟨Cursor.size_eq, fun ns => ⟨fun h => h.unique (Cursor.yields_visit t.roots), ?_⟩,
    visited, ?_, Node.pairwise_placesFrom 0 t.roots, ?_, counted, ?_, ?_, Node.count_withChild⟩
  · rintro rfl
    exact Cursor.yields_visit t.roots
  · rw [visited]
    exact (Node.map_among?_placesFrom [] t.roots).symm
  · intro path
    rw [places, Node.mem_placesFrom_iff, node?]
    cases path with
    | nil => simp [Node.among?]
    | cons i path => simp
  · rw [← counted]
    exact Node.sum_countP_operation t.nodes
  · intro o
    rw [contains, count, List.countP_pos_iff, List.any_eq_true]

end Tree

end SqlReview.Plan
