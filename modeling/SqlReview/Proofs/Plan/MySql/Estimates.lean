import SqlReview.Proofs.Plan.MySql.Traversal
import SqlReview.Proofs.Plan.Quotations

/-!
Estimates in plans of MySQL. What a document tells at its place decides what becomes of the nodes
below it, so a plan has the same steps however its estimates are given.
-/
namespace SqlReview.Plan.MySql

/-- What is told at a place, apart from what is read at the places below it. -/
inductive Told where
  /-- Each node below is put under one of its own if there is one to put above; a block has
  something in it in any case. -/
  | wrapped (isBlock : Bool) (above : Option (Operation × Text))
  /-- Tables to join, if they are listed. -/
  | loop (listed : Bool)
  | union
  /-- A table, and what stands for its estimate. -/
  | table (node : Node) (rows : Option Json)

def told (p : Place) (v : Json) : Told :=
  match p with
  | .block => .wrapped true none
  | .ordering =>
    .wrapped true (some (if (v.getFlag? "using_filesort").getD false then
      (.sort, "ordering_operation (filesort)") else (.other, "ordering_operation")))
  | .grouping => .wrapped true (some (.aggregate, "grouping_operation"))
  | .distinct => .wrapped true (some (.distinct, "duplicates_removal"))
  | .derived => .wrapped false (some (.materialize, "materialized_from_subquery"))
  | .attached => .wrapped false (some (.subquery, "attached_subquery"))
  | .entry | .specifications | .holder | .other => .wrapped false none
  | .loop => .loop v.items?.isSome
  | .union => .union
  | .table => .table { tableNode v [] with rows := none } (v.get? "rows_examined_per_scan")

namespace Told

def build : Told → List Node → Except ShapeError (List Node)
  | .wrapped isBlock above, ns =>
    .ok ((if isBlock then Place.content ns else ns).map (above.elim id fun w => wrapper w.1 w.2))
  | .loop false, _ => .error .loopNotArray
  | .loop true, [] => .error .loopEmpty
  | .loop true, first :: others => .ok [joinTables first others]
  | .union, ns => .ok [{ Node.new .setOperation "union_result" with children := ns }]
  | .table node rows, ns => .ok [{ node with rows := readRows? rows, children := ns }]

theorem build_told (p : Place) (v : Json) : (told p v).build = p.build v := by
  funext ns
  cases p with
  | ordering =>
    have above : (wrapper (if (v.getFlag? "using_filesort").getD false then
        (Operation.sort, "ordering_operation (filesort)".toList) else (.other,
        "ordering_operation")).1 (if (v.getFlag? "using_filesort").getD false then
        (Operation.sort, "ordering_operation (filesort)".toList) else (.other,
        "ordering_operation")).2) = Place.ordering.wrap v := by
      funext n
      rw [Place.wrap, orderingNode]
      split <;> rfl
    rw [Place.build, ← above]
    rfl
  | loop =>
    simp only [told, Place.build]
    cases v.items? <;> cases ns <;> rfl
  | _ => rfl

def filled (given : Quotation → Json) : Told × Option Quotation → Told
  | (.table node _, some q) => .table node (some (given q))
  | (t, _) => t

def estimated? : Told × Option Quotation → Option Estimated
  | (.table node _, some q) => some ⟨node, some q⟩
  | _ => none

end Told

section Steps

variable {given : Quotation → Json}

def plainStep (operation : Operation) (label : Text) : Estimated := ⟨.new operation label, none⟩

def covered (s : Estimated) : Forest Estimated → Forest Estimated
  | .empty => .empty
  | .tree a below rest => .tree s (.tree a below .empty) (covered s rest)

/-- A tree is joined with all others, one after the other; each join stands above what was joined
before and the tree that comes to it. -/
def joined (first : Forest Estimated) : Forest Estimated → Forest Estimated
  | .empty => first
  | .tree a below rest =>
    joined (.tree (plainStep .join "nested_loop") (first.append (.tree a below .empty)) .empty) rest

def contentSteps : Forest Estimated → Forest Estimated
  | .empty => .tree (plainStep .other "query_block") .empty .empty
  | f => f

def Told.assemble :
    Told × Option Quotation → Forest Estimated → Except ShapeError (Forest Estimated)
  | (.wrapped isBlock above, _), f =>
    .ok (above.elim id (fun w => covered (plainStep w.1 w.2))
      (if isBlock then contentSteps f else f))
  | (.loop false, _), _ => .error .loopNotArray
  | (.loop true, _), .empty => .error .loopEmpty
  | (.loop true, _), .tree first below others => .ok (joined (.tree first below .empty) others)
  | (.union, _), f => .ok (.tree (plainStep .setOperation "union_result") f .empty)
  | (.table node rows, q), f =>
    .ok (.tree ⟨q.elim { node with rows := readRows? rows } fun _ => node, q⟩ f .empty)

theorem nodes_covered (operation : Operation) (label : Text) (f : Forest Estimated) :
    (covered (plainStep operation label) f).nodes (Estimated.read given) =
      (f.nodes (Estimated.read given)).map (wrapper operation label) := by
  induction f with
  | empty => rfl
  | tree a below rest _ ih =>
    rw [covered, Forest.nodes, ih]
    rfl

theorem nodes_joined {n : Node} {first f : Forest Estimated}
    (single : first.nodes (Estimated.read given) = [n]) :
    (joined first f).nodes (Estimated.read given) =
      [joinTables n (f.nodes (Estimated.read given))] := by
  induction f generalizing first n with
  | empty => exact single
  | tree a below rest _ ih =>
    rw [joined, ih (n := ((Node.new .join "nested_loop").withChild n).withChild _)]
    · rfl
    · rw [Forest.nodes, Forest.nodes_append, single]
      rfl

theorem nodes_contentSteps (f : Forest Estimated) :
    (contentSteps f).nodes (Estimated.read given) =
      Place.content (f.nodes (Estimated.read given)) := by
  cases f <;> rfl

theorem Told.build_filled (d : Told × Option Quotation) (f : Forest Estimated) :
    (Told.filled given d).build (f.nodes (Estimated.read given)) =
      (Told.assemble d f).map (·.nodes (Estimated.read given)) := by
  obtain ⟨t, q⟩ := d
  cases t with
  | wrapped isBlock above =>
    have inner : (if isBlock then contentSteps f else f).nodes (Estimated.read given) =
        if isBlock then Place.content (f.nodes (Estimated.read given))
        else f.nodes (Estimated.read given) := by
      split
      · exact nodes_contentSteps f
      · rfl
    -- what is put above has no estimate, so it does not matter how the numbers are given
    cases above with
    | none => simp [Told.filled, Told.build, Told.assemble, Except.map, inner]
    | some w => simp [Told.filled, Told.build, Told.assemble, Except.map, inner, nodes_covered]
  | loop listed =>
    cases listed with
    | false => rfl
    | true =>
      cases f with
      | empty => rfl
      | tree first below others =>
        have all : (joined (.tree first below .empty) others).nodes (Estimated.read given) =
            [joinTables _ (others.nodes (Estimated.read given))] := nodes_joined rfl
        simp only [Told.assemble, Except.map, all]
        rfl
  | union => rfl
  | table node rows => cases q <;> rfl

/-- What is told at some places and all places below them, where estimates are numbers as they are
given. -/
inductive Outlined (given : Quotation → Json) :
    List (Place × Json) → Forest (Told × Option Quotation) → Prop
  | nil : Outlined given [] .empty
  | cons {p : Place} {v : Json} {parts : List (Place × Json)} {d : Told × Option Quotation}
      {below rest : Forest (Told × Option Quotation)} (tells : told p v = Told.filled given d)
      (parts_below : Outlined given (p.parts v) below) (others : Outlined given parts rest) :
      Outlined given ((p, v) :: parts) (.tree d below rest)

def steps : Forest (Told × Option Quotation) → Except ShapeError (Forest Estimated)
  | .empty => .ok .empty
  | .tree d below rest =>
    ((steps below).bind (Told.assemble d)).bind fun f => (steps rest).map (f.append ·)

theorem gather_of_outlined {parts : List (Place × Json)} {g : Forest (Told × Option Quotation)}
    (h : Outlined given parts g) :
    Place.gather parts = (steps g).map (·.nodes (Estimated.read given)) := by
  induction h with
  | nil => rfl
  | @cons p v parts d below rest tells _ _ ihb ihr =>
    have first : p.read v =
        ((steps below).bind (Told.assemble d)).map (·.nodes (Estimated.read given)) := by
      rw [Place.read_eq, ihb, ← Told.build_told, tells]
      cases steps below with
      | error e => rfl
      | ok f => exact Told.build_filled d f
    rw [Place.gather, first, ihr, steps]
    cases (steps below).bind (Told.assemble d) with
    | error e => rfl
    | ok f =>
      cases steps rest with
      | error e => rfl
      | ok f' => exact congrArg Except.ok (Forest.nodes_append ..).symm

end Steps

section Order

def numbered (f : Forest Estimated) : List Estimated := f.labels.filter (·.quotation.isSome)

theorem numbered_tree (s : Estimated) (below rest : Forest Estimated) :
    numbered (.tree s below rest) =
      (if s.quotation.isSome then [s] else []) ++ (numbered below ++ numbered rest) := by
  simp only [numbered, Forest.labels, List.filter_cons, List.filter_append]
  split <;> rfl

theorem numbered_append (f g : Forest Estimated) :
    numbered (f.append g) = numbered f ++ numbered g := by
  induction f with
  | empty => rfl
  | tree s below rest _ ih =>
    rw [Forest.append, numbered_tree, numbered_tree, ih, List.append_assoc, List.append_assoc]

theorem numbered_covered (operation : Operation) (label : Text) (f : Forest Estimated) :
    numbered (covered (plainStep operation label) f) = numbered f := by
  induction f with
  | empty => rfl
  | tree a below rest _ ih =>
    rw [covered, numbered_tree, numbered_tree, numbered_tree, ih]
    simp [plainStep, numbered, Forest.labels]

theorem numbered_joined (first f : Forest Estimated) :
    numbered (joined first f) = numbered first ++ numbered f := by
  induction f generalizing first with
  | empty => simp [joined, numbered, Forest.labels]
  | tree a below rest _ ih =>
    rw [joined, ih, numbered_tree, numbered_append, numbered_tree, numbered_tree]
    simp [plainStep, numbered, Forest.labels]

theorem numbered_assemble {d : Told × Option Quotation} {f f' : Forest Estimated}
    (h : Told.assemble d f = .ok f') :
    numbered f' = (Told.estimated? d).toList ++ numbered f := by
  obtain ⟨t, q⟩ := d
  cases t with
  | wrapped isBlock above =>
    have inner : numbered (if isBlock then contentSteps f else f) = numbered f := by
      cases isBlock with
      | false => rfl
      | true => cases f <;> rfl
    cases h
    cases above with
    | none => exact inner
    | some w => exact (numbered_covered ..).trans inner
  | loop listed =>
    cases listed with
    | false => cases h
    | true =>
      cases f with
      | empty => cases h
      | tree first below others =>
        cases h
        rw [numbered_joined, numbered_tree, numbered_tree]
        simp [Told.estimated?, numbered, Forest.labels]
  | union =>
    cases h
    simp [plainStep, Told.estimated?, numbered, Forest.labels]
  | table node rows =>
    cases h
    cases q <;> simp [Told.estimated?, numbered, Forest.labels]

theorem numbered_steps {g : Forest (Told × Option Quotation)} {f : Forest Estimated}
    (h : steps g = .ok f) : numbered f = g.labels.filterMap Told.estimated? := by
  induction g generalizing f with
  | empty =>
    cases h
    rfl
  | tree d below rest ihb ihr =>
    rw [steps] at h
    cases hb : steps below with
    | error e =>
      rw [hb] at h
      cases h
    | ok b =>
      cases ha : Told.assemble d b with
      | error e =>
        rw [hb] at h
        simp only [Except.bind, ha] at h
        cases h
      | ok a =>
        cases hr : steps rest with
        | error e =>
          rw [hb, hr] at h
          simp only [Except.bind, ha, Except.map] at h
          cases h
        | ok r =>
          rw [hb, hr] at h
          simp only [Except.bind, ha, Except.map, Except.ok.injEq] at h
          rw [← h, numbered_append, numbered_assemble ha, ihb hb, ihr hr, Forest.labels,
            List.filterMap_cons, List.filterMap_append, List.append_assoc]
          cases Told.estimated? d <;> rfl

end Order

theorem normalize_outlined {given : Quotation → Json} {v block : Json}
    {g : Forest (Told × Option Quotation)} (located : wrapping.unwrap v = .ok block)
    (outlined : Outlined given [(.block, block)] g) : normalize .mySql v =
      (steps g).map fun f => ⟨.mySql, f.nodes (Estimated.read given)⟩ := by
  have nodes := gather_of_outlined outlined
  rw [Place.gather_singleton] at nodes
  have whole : normalize .mySql v = (readBlock block).map fun root => ⟨.mySql, [root]⟩ := by
    rw [normalize, MySql.read, located]
    rfl
  have read : Place.block.read block = (readBlock block).map fun root => [root] := rfl
  have one : normalize .mySql v =
      (Place.block.read block).map fun roots => (⟨.mySql, roots⟩ : Tree) := by
    rw [whole, read]
    cases readBlock block <;> rfl
  rw [one, nodes]
  cases steps g <;> rfl

end SqlReview.Plan.MySql
