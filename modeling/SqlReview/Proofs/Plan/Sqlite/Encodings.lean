import SqlReview.Proofs.Plan.Sqlite.Drawing
import SqlReview.Proofs.Plan.Sqlite.RowForest

/-!
A plan told as rows, each before the rows below it, and as the outline that the shell draws. Both
are read as the forest of its details.
-/
namespace SqlReview.Plan.Sqlite

/-- Rows in a forest whose roots all have one parent, and name it, as the others do theirs. -/
def Linked (parent : Int) : Forest Row → Prop
  | .empty => True
  | .tree row below rest => row.parent = parent ∧ Linked row.id below ∧ Linked parent rest

namespace Linked

variable {parent : Int} {f : Forest Row}

theorem parent_of_mem_roots (h : Linked parent f) : ∀ row ∈ f.roots, row.parent = parent := by
  induction f generalizing parent with
  | empty => simp [Forest.roots]
  | tree row below rest _ ihr =>
    obtain ⟨named, _, rest⟩ := h
    exact List.forall_mem_cons.2 ⟨named, ihr rest⟩

theorem branch (h : Linked parent f) : ∀ b ∈ f.branches, Linked b.1.id b.2 := by
  induction f generalizing parent with
  | empty => simp [Forest.branches]
  | tree row below rest ihb ihr =>
    obtain ⟨_, below, rest⟩ := h
    exact List.forall_mem_cons.2 ⟨below, List.forall_mem_append.2 ⟨ihb below, ihr rest⟩⟩

theorem parent_known (h : Linked parent f) {row : Row} (hrow : row ∈ f.labels) :
    row.parent = parent ∨ ∃ b ∈ f.branches, row ∈ b.2.roots ∧ row.parent = b.1.id := by
  rcases Forest.mem_roots_or_below hrow with root | ⟨b, hb, below⟩
  · exact .inl (h.parent_of_mem_roots row root)
  · exact .inr ⟨b, hb, below, (h.branch b hb).parent_of_mem_roots row below⟩

theorem filter_unnamed (h : Linked parent f) {id : Int} (other : id ≠ parent)
    (absent : id ∉ f.labels.map Row.id) : f.labels.filter (Row.isBelow id) = [] := by
  rw [List.filter_eq_nil_iff]
  intro row hrow below
  have named := (Row.isBelow_iff.1 below).1
  rcases h.parent_known hrow with same | ⟨b, hb, _, same⟩
  · exact other (named.symm.trans same)
  · apply absent
    rw [← named, same]
    exact List.mem_map_of_mem (Forest.mem_labels_of_mem_branches hb)

theorem filter_roots (h : Linked parent f) (fresh : (parent :: f.labels.map Row.id).Nodup) :
    f.labels.filter (Row.isBelow parent) = f.roots := by
  induction f with
  | empty => rfl
  | tree row below rest _ ihr =>
    obtain ⟨named, hbelow, hrest⟩ := h
    simp only [Forest.labels, List.map_cons, List.map_append, List.nodup_cons, List.nodup_append,
      List.mem_cons, List.mem_append, not_or] at fresh ihr
    obtain ⟨⟨other, absentb, absentr⟩, _, _, nodupr, _⟩ := fresh
    have root : row.isBelow parent = true := Row.isBelow_iff.2 ⟨named, named ▸ other⟩
    simp only [Forest.labels, Forest.roots]
    rw [List.filter_cons, if_pos root, List.filter_append, hbelow.filter_unnamed other absentb,
      List.nil_append, ihr hrest ⟨absentr, nodupr⟩]

theorem filter_below (h : Linked parent f) (fresh : (parent :: f.labels.map Row.id).Nodup) :
    ∀ b ∈ f.branches, f.labels.filter (Row.isBelow b.1.id) = b.2.roots := by
  induction f generalizing parent with
  | empty => simp [Forest.branches]
  | tree row below rest ihb ihr =>
    obtain ⟨named, hbelow, hrest⟩ := h
    have unnamed := (List.nodup_cons.1 fresh).1
    simp only [Forest.labels, List.map_cons, List.map_append] at fresh
    obtain ⟨outside, inside⟩ := List.nodup_cons.1 fresh
    obtain ⟨absent, nodup⟩ := List.nodup_cons.1 inside
    obtain ⟨nodupb, nodupr, apart⟩ := List.nodup_append.1 nodup
    simp only [List.mem_cons, List.mem_append, not_or] at outside absent
    intro b hb
    -- the first row is below the forest's own parent, which no row of the forest is
    have up : ¬ row.isBelow b.1.id = true := by
      intro up
      have same := (Row.isBelow_iff.1 up).1
      have known := List.mem_map_of_mem (f := Row.id) (Forest.mem_labels_of_mem_branches hb)
      rw [← same, named] at known
      exact unnamed known
    simp only [Forest.labels]
    rw [List.filter_cons, if_neg up, List.filter_append]
    rcases List.mem_cons.1 hb with rfl | hb
    · rw [hbelow.filter_roots (List.nodup_cons.2 ⟨absent.1, nodupb⟩),
        hrest.filter_unnamed (Ne.symm outside.1) absent.2, List.append_nil]
    rcases List.mem_append.1 hb with hb | hb
    · have id : b.1.id ∈ below.labels.map Row.id :=
        List.mem_map_of_mem (Forest.mem_labels_of_mem_branches hb)
      rw [ihb hbelow (List.nodup_cons.2 ⟨absent.1, nodupb⟩) b hb,
        hrest.filter_unnamed ?_ fun hr => apart _ id _ hr rfl, List.append_nil]
      rintro rfl
      exact outside.2.1 id
    · have id : b.1.id ∈ rest.labels.map Row.id :=
        List.mem_map_of_mem (Forest.mem_labels_of_mem_branches hb)
      rw [ihr hrest (List.nodup_cons.2 ⟨outside.2.2, nodupr⟩) b hb,
        hbelow.filter_unnamed ?_ fun hb => apart _ hb _ id rfl, List.nil_append]
      intro same
      exact absent.2 (same ▸ id)

theorem not_self (h : Linked parent f) (fresh : (parent :: f.labels.map Row.id).Nodup) :
    ∀ row ∈ f.labels, row.parent ≠ row.id := by
  intro row hrow
  have id : row.id ∈ f.labels.map Row.id := List.mem_map_of_mem hrow
  rcases h.parent_known hrow with same | ⟨b, hb, below, _⟩
  · intro self
    apply (List.nodup_cons.1 fresh).1
    rw [← same, self]
    exact id
  · rw [← h.filter_below fresh b hb] at below
    exact (Row.isBelow_iff.1 (List.mem_filter.1 below).2).2

theorem filter_isRoot (h : Linked parent f) (fresh : (parent :: f.labels.map Row.id).Nodup) :
    f.labels.filter (Row.isRoot f.labels) = f.roots := by
  rw [← h.filter_roots fresh]
  apply List.filter_congr
  intro row hrow
  have self := h.not_self fresh row hrow
  rw [Bool.eq_iff_iff, Row.isRoot_iff, Row.isBelow_iff]
  constructor
  · intro root
    refine ⟨?_, self⟩
    rcases h.parent_known hrow with same | ⟨b, hb, _, same⟩
    · exact same
    · rcases root with root | dangles
      · exact absurd root self
      · exact absurd same.symm (dangles _ (Forest.mem_labels_of_mem_branches hb))
  · rintro ⟨same, _⟩
    refine .inr fun other hother named => (List.nodup_cons.1 fresh).1 ?_
    rw [← same, ← named]
    exact List.mem_map_of_mem hother

theorem assemble_labels (h : Linked parent f) (fresh : (parent :: f.labels.map Row.id).Nodup) :
    assemble f.labels = f.nodes Row.node := by
  have reached : ∀ row ∈ f.labels,
      Reached f.labels ((f.labels.filter (Row.isRoot f.labels)).map Row.id) row.id := by
    rw [h.filter_isRoot fresh]
    apply Forest.forall_mem_labels
      (P := fun row : Row => Reached f.labels (f.roots.map Row.id) row.id)
    · intro row root
      exact .start (List.mem_map_of_mem root)
    · intro b hb above row below
      have named := (h.branch b hb).parent_of_mem_roots row below
      rw [← h.filter_below fresh b hb] at below
      have hrow := (List.mem_filter.1 below).1
      exact .link hrow (named ▸ above) (h.not_self fresh row hrow)
  obtain ⟨g, e, _, roots, below⟩ := assemble_of_reached (List.nodup_cons.1 fresh).2 reached
  rw [h.filter_isRoot fresh] at roots
  have same : g = f := Forest.eq_of_roots (fun row => f.labels.filter (Row.isBelow row.id)) roots
    below fun b hb => (h.filter_below fresh b hb).symm
  rw [e, same]

end Linked

def rowId? (v : Json) : Option Int := (v.get? "id").bind Json.integer?

/-- Rows that tell a forest of details: each gives its number and that of its parent, and comes
before the rows below it. -/
inductive Tells : Int → Forest Text → List Json → Prop where
  | empty {parent : Int} : Tells parent .empty []
  | tree {parent id : Int} {detail : Text} {under rest : Forest Text} {v : Json}
      {inner later : List Json} : rowId? v = some id →
      (v.get? "parent").bind Json.integer? = some parent → v.getText? "detail" = some detail →
      Tells id under inner → Tells parent rest later →
      Tells parent (.tree detail under rest) (v :: (inner ++ later))

theorem rowDetail?_of_getText? {v : Json} {detail : Text} (h : v.getText? "detail" = some detail) :
    rowDetail? v = some detail := by
  cases v with
  | string => cases h
  | _ => exact h

theorem rowOf_of_rowId? {v : Json} {id : Int} (h : rowId? v = some id) (i j : Nat) :
    rowOf i v = rowOf j v := by
  unfold rowId? at h
  unfold rowOf
  rw [h]
  rfl

namespace Tells

variable {parent : Int} {f : Forest Text} {vs : List Json}

theorem numbered (h : Tells parent f vs) : ∀ v ∈ vs, ∃ id, rowId? v = some id := by
  induction h with
  | empty => simp
  | tree hid _ _ _ _ ihu ihr =>
    exact List.forall_mem_cons.2 ⟨⟨_, hid⟩, List.forall_mem_append.2 ⟨ihu, ihr⟩⟩

theorem detailed (h : Tells parent f vs) : ∀ v ∈ vs, (rowDetail? v).isSome := by
  induction h with
  | empty => simp
  | tree _ _ hdetail _ _ ihu ihr =>
    refine List.forall_mem_cons.2 ⟨?_, List.forall_mem_append.2 ⟨ihu, ihr⟩⟩
    rw [rowDetail?_of_getText? hdetail]
    rfl

theorem rowsOf_eq (h : Tells parent f vs) : rowsOf vs = vs.map (rowOf 0) := by
  unfold rowsOf
  apply List.ext_getElem
  · simp
  · intro i hi hi'
    rw [List.getElem_mapIdx, List.getElem_map]
    obtain ⟨id, hid⟩ := h.numbered _ (List.getElem_mem _)
    exact rowOf_of_rowId? hid i 0

theorem ids_eq (h : Tells parent f vs) :
    ((vs.map (rowOf 0)).map Row.id).map some = vs.map rowId? := by
  rw [List.map_map, List.map_map]
  apply List.map_congr_left
  intro v hv
  obtain ⟨id, hid⟩ := h.numbered v hv
  rw [hid]
  unfold rowId? at hid
  simp only [Function.comp_apply, rowOf, hid, Option.getD_some]

theorem exists_linked (h : Tells parent f vs) :
    ∃ g : Forest Row, Linked parent g ∧ g.labels = vs.map (rowOf 0) ∧
      g.nodes Row.node = f.nodes nodeOf := by
  induction h with
  | empty => exact ⟨.empty, trivial, rfl, rfl⟩
  | @tree parent id detail under rest v inner later hid hparent hdetail _ _ ihu ihr =>
    obtain ⟨gu, linkedu, labelsu, nodesu⟩ := ihu
    obtain ⟨gr, linkedr, labelsr, nodesr⟩ := ihr
    have row : rowOf 0 v = ⟨id, parent, nodeOf detail⟩ := by
      unfold rowId? at hid
      simp only [rowOf, hid, hparent, rowDetail?_of_getText? hdetail, Option.getD_some]
    refine ⟨.tree ⟨id, parent, nodeOf detail⟩ gu gr, ⟨rfl, linkedu, linkedr⟩, ?_, ?_⟩
    · rw [List.map_cons, List.map_append, row, ← labelsu, ← labelsr]
      rfl
    · simp only [Forest.nodes, nodesu, nodesr]

theorem assemble_rowsOf (h : Tells parent f vs) (distinct : (vs.map rowId?).Nodup)
    (outside : some parent ∉ vs.map rowId?) : assemble (rowsOf vs) = f.nodes nodeOf := by
  obtain ⟨g, linked, labels, nodes⟩ := h.exists_linked
  have fresh : (parent :: g.labels.map Row.id).Nodup := by
    rw [← h.ids_eq, ← labels] at distinct outside
    refine List.nodup_cons.2 ⟨?_, distinct.of_map _⟩
    intro inside
    exact outside (List.mem_map_of_mem inside)
  rw [h.rowsOf_eq, ← labels, linked.assemble_labels fresh, nodes]

end Tells

/-- The rows of a forest and the outline that is drawn of it give the same plan, that of its
details. -/
theorem normalize_encodings {f : Forest Text} (printable : ∀ detail ∈ f.labels, Printable detail)
    {ls : List Text} (drawn : Draws 0 f ls) {top : List Text}
    (headed : top = [] ∨ top = [header]) {text : Text}
    (printed : text = (top ++ ls).flatMap (· ++ ['\n']) ∨
      text ++ ['\n'] = (top ++ ls).flatMap (· ++ ['\n']))
    {vs : List Json} (told : Tells 0 f vs) (distinct : (vs.map rowId?).Nodup)
    (nonzero : some 0 ∉ vs.map rowId?) :
    normalize .sqlite (.string text) = .ok ⟨.sqlite, f.nodes nodeOf⟩ ∧
      normalize .sqlite (.array vs) = .ok ⟨.sqlite, f.nodes nodeOf⟩ := by
  constructor
  · have read := drawn.readOutline_eq printable headed printed
    simp only [normalize, Sqlite.read, read]
  · rw [normalize_rows told.detailed, told.assemble_rowsOf distinct nonzero]

def coRoutine : Forest Text :=
  .tree "CO-ROUTINE s" (.tree "COMPOUND QUERY" (.tree "SCAN a" .empty .empty) .empty)
    (.tree "SCAN s" .empty .empty)

def coRoutineRows : List Json :=
  [.ofFields [("id", .ofNat 2), ("parent", .ofNat 0), ("detail", .string "CO-ROUTINE s")],
    .ofFields [("id", .ofNat 3), ("parent", .ofNat 2), ("detail", .string "COMPOUND QUERY")],
    .ofFields [("id", .ofNat 7), ("parent", .ofNat 3), ("detail", .string "SCAN a")],
    .ofFields [("id", .ofNat 4), ("parent", .ofNat 0), ("detail", .string "SCAN s")]]

theorem normalize_coRoutine :
    normalize .sqlite (.string
        "QUERY PLAN\n|--CO-ROUTINE s\n|  \x60--COMPOUND QUERY\n|     \x60--SCAN a\n\x60--SCAN s\n") =
        .ok ⟨.sqlite, coRoutine.nodes nodeOf⟩ ∧
      normalize .sqlite (.array coRoutineRows) = .ok ⟨.sqlite, coRoutine.nodes nodeOf⟩ := by
  have printable : ∀ detail ∈ coRoutine.labels, Printable detail := by
    intro detail hd
    simp only [coRoutine, Forest.labels, List.mem_cons, List.mem_append, List.not_mem_nil,
      or_false] at hd
    rcases hd with rfl | (rfl | rfl) | rfl
    all_goals exact ⟨by decide, by decide, by decide, by simp⟩
  have told : Tells 0 coRoutine coRoutineRows :=
    .tree rfl rfl rfl (.tree rfl rfl rfl (.tree rfl rfl rfl .empty .empty) .empty)
      (.tree rfl rfl rfl .empty .empty)
  exact normalize_encodings printable (draws_drawing [] coRoutine) (.inr rfl) (.inl (by decide))
    told (by decide) (by decide)

end SqlReview.Plan.Sqlite
