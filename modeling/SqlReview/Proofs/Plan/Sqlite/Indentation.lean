import Mathlib.Data.List.Sigma
import SqlReview.Plan.Normal
import SqlReview.Proofs.Plan.Preorder
import SqlReview.Proofs.Plan.Sqlite.OpenBranches

/-!
Outlines that are indented in any way. Every line that is kept gives one node, in the order of the
lines, and the node above it is that of the nearest line before it that is indented less, however
many levels the lines go down or up and wherever they start.
-/
namespace SqlReview.Plan

namespace Forest

section Outline

variable {α : Type} (depth : α → Nat)

def deeper (bound : Nat) : Forest α → Forest α
  | empty => empty
  | tree a below rest => if bound < depth a then tree a below (rest.deeper bound) else empty

def shallower (bound : Nat) : Forest α → Forest α
  | empty => empty
  | tree a below rest => if bound < depth a then rest.shallower bound else tree a below rest

/-- Puts a label in front of a forest and takes the deeper trees that come first below it. -/
def hang (a : α) (f : Forest α) : Forest α :=
  tree a (f.deeper depth (depth a)) (f.shallower depth (depth a))

def outline (as : List α) : Forest α := as.foldr (hang depth) empty

/-- The nearest label before the given one that is less deep. -/
def above? [DecidableEq α] (as : List α) (a : α) : Option α :=
  (as.takeWhile (· ≠ a)).reverse.find? fun b => depth b < depth a

variable {depth} {bound : Nat} {a b : α} {as : List α} {f : Forest α}

theorem labels_append (f g : Forest α) : (f.append g).labels = f.labels ++ g.labels := by
  induction f with
  | empty => rfl
  | tree a below rest _ ih => simp only [append, labels, ih, List.cons_append, List.append_assoc]

theorem branches_append (f g : Forest α) :
    (f.append g).branches = f.branches ++ g.branches := by
  induction f with
  | empty => rfl
  | tree a below rest _ ih => simp only [append, branches, ih, List.cons_append, List.append_assoc]

theorem deeper_append_shallower (depth : α → Nat) (bound : Nat) (f : Forest α) :
    (f.deeper depth bound).append (f.shallower depth bound) = f := by
  induction f with
  | empty => rfl
  | tree a below rest _ ih =>
    by_cases deep : bound < depth a
    · simp only [deeper, shallower, deep, if_true, append, ih]
    · simp only [deeper, shallower, deep, if_false, append]

theorem roots_deeper (f : Forest α) :
    (f.deeper depth bound).roots = f.roots.takeWhile fun a => bound < depth a := by
  induction f with
  | empty => rfl
  | tree a below rest _ ih =>
    by_cases deep : bound < depth a
    · simp [deeper, roots, deep, ih]
    · simp [deeper, roots, deep]

theorem roots_shallower (f : Forest α) :
    (f.shallower depth bound).roots = f.roots.dropWhile fun a => bound < depth a := by
  induction f with
  | empty => rfl
  | tree a below rest _ ih =>
    by_cases deep : bound < depth a
    · simp [shallower, roots, deep, ih]
    · simp [shallower, roots, deep]

theorem labels_outline (depth : α → Nat) (as : List α) : (outline depth as).labels = as := by
  induction as with
  | nil => rfl
  | cons a as ih =>
    have whole := congrArg labels (deeper_append_shallower depth (depth a) (outline depth as))
    rw [labels_append, ih] at whole
    exact congrArg (a :: ·) whole

theorem takeWhile_of_falling (falls : as.Pairwise fun a b => depth b ≤ depth a) :
    (as.takeWhile fun a => bound < depth a) = as.filter (fun a => bound < depth a) ∧
      (as.dropWhile fun a => bound < depth a) = as.filter (fun a => depth a ≤ bound) := by
  induction falls with
  | nil => exact ⟨rfl, rfl⟩
  | @cons a as first _ ih =>
    by_cases deep : bound < depth a
    · simp [deep, ih]
    · have all : ∀ b ∈ as, depth b ≤ bound := by
        intro b hb
        have := first b hb
        omega
      have same : as.filter (fun b => depth b ≤ bound) = as :=
        List.filter_eq_self.2 fun b hb => decide_eq_true (all b hb)
      have none : as.filter (fun b => bound < depth b) = [] :=
        List.filter_eq_nil_iff.2 fun b hb => by simpa using all b hb
      simp only [List.takeWhile_cons, List.dropWhile_cons, List.filter_cons, deep,
        Nat.not_lt.1 deep, same, none, decide_false, decide_true, Bool.false_eq_true, if_false,
        if_true, and_self]

theorem roots_outline_cons (a : α) (as : List α) : (outline depth (a :: as)).roots =
    a :: (outline depth as).roots.dropWhile fun b => depth a < depth b :=
  congrArg (a :: ·) (roots_shallower _)

theorem branches_outline_cons (a : α) (as : List α) : (outline depth (a :: as)).branches =
    (a, (outline depth as).deeper depth (depth a)) :: (outline depth as).branches := by
  have whole := congrArg branches (deeper_append_shallower depth (depth a) (outline depth as))
  rw [branches_append] at whole
  exact congrArg (_ :: ·) whole

theorem falling_roots_outline (as : List α) :
    (outline depth as).roots.Pairwise fun a b => depth b ≤ depth a := by
  induction as with
  | nil => exact .nil
  | cons a as ih =>
    rw [roots_outline_cons, (takeWhile_of_falling ih).2, List.pairwise_cons]
    refine ⟨?_, ih.filter _⟩
    intro b hb
    exact of_decide_eq_true (List.mem_filter.1 hb).2

section Above

variable [DecidableEq α]

theorem mem_of_above? (h : above? depth as a = some b) : b ∈ as :=
  (List.takeWhile_sublist _).subset (List.mem_reverse.1 (List.mem_of_find?_eq_some h))

theorem above?_head : above? depth (a :: as) a = none := by
  simp [above?]

theorem above?_cons (other : a ≠ b) : above? depth (a :: as) b =
    (above? depth as b).or (if depth a < depth b then some a else none) := by
  simp only [above?, List.takeWhile_cons, other, ne_eq, not_false_eq_true, decide_true, if_true,
    List.reverse_cons, List.find?_append, List.find?_singleton, decide_eq_true_eq]

/-- The roots are the labels with none above them. -/
theorem roots_outline (distinct : as.Nodup) :
    (outline depth as).roots = as.filter fun a => above? depth as a = none := by
  induction as with
  | nil => rfl
  | cons a as ih =>
    obtain ⟨absent, distinct⟩ := List.nodup_cons.1 distinct
    have first : (a :: as).filter (fun b => above? depth (a :: as) b = none) =
        a :: as.filter fun b => above? depth (a :: as) b = none :=
      List.filter_cons_of_pos (decide_eq_true above?_head)
    rw [roots_outline_cons, (takeWhile_of_falling (falling_roots_outline as)).2, ih distinct,
      List.filter_filter, first]
    congr 1
    apply List.filter_congr
    intro b hb
    rw [above?_cons (ne_of_mem_of_not_mem hb absent).symm]
    by_cases deep : depth a < depth b
    · simp [deep, Nat.not_le.2 deep]
    · simp [deep, Nat.not_lt.1 deep]

/-- Right below a label are those that it is above. -/
theorem below_outline (distinct : as.Nodup) : ∀ b ∈ (outline depth as).branches,
    b.2.roots = as.filter fun a => above? depth as a = some b.1 := by
  induction as with
  | nil => exact List.forall_mem_nil _
  | cons a as ih =>
    obtain ⟨absent, distinct⟩ := List.nodup_cons.1 distinct
    have first (c : α) : (a :: as).filter (fun b => above? depth (a :: as) b = some c) =
        as.filter fun b => above? depth (a :: as) b = some c :=
      List.filter_cons_of_neg (by simp [above?_head])
    rw [branches_outline_cons, List.forall_mem_cons]
    constructor
    · rw [roots_deeper, (takeWhile_of_falling (falling_roots_outline as)).1,
        roots_outline distinct, List.filter_filter, first]
      apply List.filter_congr
      intro b hb
      have fresh : above? depth as b ≠ some a := fun h => absent (mem_of_above? h)
      rw [above?_cons (ne_of_mem_of_not_mem hb absent).symm]
      cases e : above? depth as b with
      | none => simp
      | some c =>
        rw [e] at fresh
        simpa using fresh
    · intro t ht
      have known : t.1 ∈ as := labels_outline depth as ▸ mem_labels_of_mem_branches ht
      have other : a ≠ t.1 := (ne_of_mem_of_not_mem known absent).symm
      rw [ih distinct t ht, first]
      apply List.filter_congr
      intro b hb
      rw [above?_cons (ne_of_mem_of_not_mem hb absent).symm]
      cases above? depth as b with
      | none => simp [other]
      | some c => simp

end Above

end Outline

end Forest

namespace Sqlite

def branchesOf : Forest (Text × Nat) → List Branch
  | .empty => []
  | .tree l below rest =>
    ⟨lineDepth l.1, { lineNode l.1 with
      children := (lineNode l.1).children ++ below.nodes fun l => lineNode l.1 }⟩ :: branchesOf rest

section Branches

variable (f : Forest (Text × Nat))

theorem map_node_branchesOf :
    (branchesOf f).map Branch.node = f.nodes fun l => lineNode l.1 := by
  induction f with
  | empty => rfl
  | tree l below rest _ ih => simp only [branchesOf, List.map_cons, ih, Forest.nodes]

theorem takeWhile_branchesOf (bound : Nat) :
    ((branchesOf f).takeWhile fun b => bound < b.depth) =
      branchesOf (f.deeper (fun l => lineDepth l.1) bound) := by
  induction f with
  | empty => rfl
  | tree l below rest _ ih =>
    by_cases deep : bound < lineDepth l.1
    · simp [branchesOf, Forest.deeper, deep, ih]
    · simp [branchesOf, Forest.deeper, deep]

theorem dropWhile_branchesOf (bound : Nat) :
    ((branchesOf f).dropWhile fun b => bound < b.depth) =
      branchesOf (f.shallower (fun l => lineDepth l.1) bound) := by
  induction f with
  | empty => rfl
  | tree l below rest _ ih =>
    by_cases deep : bound < lineDepth l.1
    · simp [branchesOf, Forest.shallower, deep, ih]
    · simp [branchesOf, Forest.shallower, deep]

theorem addLine_branchesOf (l : Text × Nat) :
    addLine l.1 (branchesOf f) = branchesOf (f.hang (fun l => lineDepth l.1) l) := by
  simp only [addLine, takeWhile_branchesOf, dropWhile_branchesOf, map_node_branchesOf]
  rfl

end Branches

theorem foldr_addLine (ls : List (Text × Nat)) : (ls.map Prod.fst).foldr addLine [] =
    branchesOf (Forest.outline (fun l => lineDepth l.1) ls) := by
  induction ls with
  | nil => rfl
  | cons l ls ih =>
    rw [List.map_cons, List.foldr_cons, ih, addLine_branchesOf]
    rfl

theorem readOutline_eq (text : Text) : readOutline text =
    (Forest.outline (fun l => lineDepth l.1) (keptLines text).zipIdx).nodes
      fun l => lineNode l.1 := by
  have all := foldr_addLine (keptLines text).zipIdx
  rw [List.zipIdx_map_fst] at all
  rw [readOutline, ← map_node_branchesOf, ← all]
  rfl

theorem map_bare_visit_readOutline (text : Text) :
    (Node.visit (readOutline text)).map Node.bare = (keptLines text).map lineNode := by
  have all := Forest.map_bare_preorderAll (f := fun l : Text × Nat => lineNode l.1)
    (fun _ => rfl) (Forest.outline (fun l => lineDepth l.1) (keptLines text).zipIdx)
  rw [Forest.labels_outline] at all
  rw [Node.visit_eq_preorderAll, readOutline_eq, all]
  conv_rhs => rw [← List.zipIdx_map_fst 0 (keptLines text), List.map_map]
  rfl

section Above

variable (lines : List Text) {l : Text × Nat}

def lineAbove? (l : Text × Nat) : Option (Text × Nat) :=
  (lines.zipIdx.take l.2).reverse.find? fun m => lineDepth m.1 < lineDepth l.1

theorem takeWhile_zipIdx {start : Nat} (h : l ∈ lines.zipIdx start) :
    (lines.zipIdx start).takeWhile (· ≠ l) = (lines.zipIdx start).take (l.2 - start) := by
  induction lines generalizing start with
  | nil => cases h
  | cons line lines ih =>
    rw [List.zipIdx_cons] at h ⊢
    rcases List.mem_cons.1 h with rfl | later
    · simp
    · have after : start + 1 ≤ l.2 := List.le_snd_of_mem_zipIdx later
      have other : (line, start) ≠ l := by
        rintro rfl
        exact Nat.not_succ_le_self start after
      have one : l.2 - start = l.2 - (start + 1) + 1 := by omega
      have kept : ((line, start) :: lines.zipIdx (start + 1)).takeWhile (· ≠ l) =
          (line, start) :: (lines.zipIdx (start + 1)).takeWhile (· ≠ l) :=
        List.takeWhile_cons_of_pos (decide_eq_true other)
      rw [kept, ih later, one, List.take_succ_cons]

theorem above?_eq_lineAbove? (h : l ∈ lines.zipIdx) :
    Forest.above? (fun l => lineDepth l.1) lines.zipIdx l = lineAbove? lines l := by
  rw [Forest.above?, takeWhile_zipIdx lines h]
  rfl

end Above

/-- Any text is read as an outline, forward as well as backwards. Its kept lines give the nodes in
their order, each labelled with what stands after the drawing, and below a node are those of the
lines that it is the nearest less indented one for. -/
theorem normalize_text (text : Text) :
    ∃ (tree : Tree) (forest : Forest (Text × Nat)),
      normalize .sqlite (.string text) = .ok tree ∧ tree.roots = readForward text ∧
      tree.roots = forest.nodes (fun l => nodeOf (l.1.dropWhile isDrawing)) ∧
      forest.labels = (keptLines text).zipIdx ∧
      forest.roots =
        (keptLines text).zipIdx.filter (fun l => lineAbove? (keptLines text) l = none) ∧
      (∀ b ∈ forest.branches, b.2.roots =
        (keptLines text).zipIdx.filter fun l => lineAbove? (keptLines text) l = some b.1) ∧
      tree.nodes.map Node.bare =
        (keptLines text).map (fun line => nodeOf (line.dropWhile isDrawing)) ∧
      tree.nodes.map Node.label =
        (keptLines text).map fun line => Text.trim (line.dropWhile isDrawing) := by
  have distinct : (keptLines text).zipIdx.Nodup :=
    (List.nodup_zipIdx_map_snd (keptLines text)).of_map _
  have labels := Forest.labels_outline (fun l => lineDepth l.1) (keptLines text).zipIdx
  have visited := map_bare_visit_readOutline text
  refine ⟨⟨.sqlite, readOutline text⟩,
    Forest.outline (fun l => lineDepth l.1) (keptLines text).zipIdx, rfl,
    (readForward_eq_readOutline text).symm, readOutline_eq text, labels, ?_, ?_, visited, ?_⟩
  · rw [Forest.roots_outline distinct]
    apply List.filter_congr
    intro l hl
    rw [above?_eq_lineAbove? _ hl]
  · intro b hb
    rw [Forest.below_outline distinct b hb]
    apply List.filter_congr
    intro l hl
    rw [above?_eq_lineAbove? _ hl]
  · have shown := congrArg (List.map Node.label) visited
    rw [List.map_map, List.map_map] at shown
    exact shown

def ragged : Text := "QUERY PLAN\n         COMPOUND\n\n   LEFT\n|  |  |  |--SCAN a\n  |-SCAN b"

theorem normalize_ragged :
    ∃ (tree : Tree) (forest : Forest (Text × Nat)),
      normalize .sqlite (.string ragged) = .ok tree ∧
      tree.nodes.map Node.label =
        ["COMPOUND".toList, "LEFT".toList, "SCAN a".toList, "SCAN b".toList] ∧
      forest.roots.map Prod.snd = [0, 1, 3] ∧
      ∀ b ∈ forest.branches, b.1.2 = 1 → b.2.roots.map Prod.snd = [2] := by
  obtain ⟨tree, forest, read, _, _, labels, roots, below, _, shown⟩ := normalize_text ragged
  refine ⟨tree, forest, read, ?_, ?_, ?_⟩
  · rw [shown]
    decide +kernel
  · rw [roots]
    decide +kernel
  · intro b hb second
    have known : b.1 ∈ (keptLines ragged).zipIdx := labels ▸ Forest.mem_labels_of_mem_branches hb
    have only : ∀ l ∈ (keptLines ragged).zipIdx, l.2 = 1 → ((keptLines ragged).zipIdx.filter
        fun m => lineAbove? (keptLines ragged) m = some l).map Prod.snd = [2] := by
      decide +kernel
    rw [below b hb]
    exact only b.1 known second

end Sqlite

end SqlReview.Plan
