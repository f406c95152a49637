import SqlReview.Proofs.Plan.Sqlite.Links

/-!
The rows of a plan as JSON and the forest they make. Rows of distinct numbers whose links close no
chain keep their places, all of them. In any rows at all, a row whose parent is missing is a root
unless a root before it has a node of the same number somewhere below.
-/
namespace SqlReview.Plan.Sqlite

def rowDetail? : Json → Option Text
  | .string detail => some detail
  | v => v.getText? "detail"

/-- A row without a number takes its position, counted from one; one without a parent, zero. -/
def rowOf (position : Nat) (v : Json) : Row :=
  ⟨((v.get? "id").bind Json.integer?).getD (position + 1),
    ((v.get? "parent").bind Json.integer?).getD 0, nodeOf ((rowDetail? v).getD [])⟩

def rowsOf (vs : List Json) : List Row := vs.mapIdx rowOf

theorem Row.ofJson_of_detail {position : Nat} {v : Json} (h : (rowDetail? v).isSome) :
    Row.ofJson position v = .ok (rowOf position v) := by
  cases v with
  | string => rfl
  | object fields =>
    obtain ⟨detail, h⟩ := Option.isSome_iff_exists.1 h
    have h : (Json.object fields).getText? "detail" = some detail := h
    simp only [Row.ofJson, rowOf, rowDetail?, h, Option.getD_some]
  | _ => cases h

theorem rowDetail?_of_ofJson {position : Nat} {v : Json} {row : Row}
    (h : Row.ofJson position v = .ok row) : (rowDetail? v).isSome := by
  cases v with
  | string => rfl
  | object fields =>
    simp only [Row.ofJson] at h
    split at h
    · cases h
    · rename_i detail e
      exact Option.isSome_iff_exists.2 ⟨detail, e⟩
  | _ => cases h

theorem Row.ofJsonFrom_of_details {vs : List Json} (h : ∀ v ∈ vs, (rowDetail? v).isSome)
    (position : Nat) :
    Row.ofJsonFrom position vs = .ok (vs.mapIdx fun i => rowOf (position + i)) := by
  induction vs generalizing position with
  | nil => rfl
  | cons v vs ih =>
    obtain ⟨hv, hvs⟩ := List.forall_mem_cons.1 h
    simp only [Row.ofJsonFrom, Row.ofJson_of_detail hv, ih hvs, List.mapIdx_cons, Except.map]
    simp only [Nat.add_zero, Nat.add_assoc, Nat.add_comm 1]

theorem details_of_ofJsonFrom {vs : List Json} {position : Nat} {rows : List Row}
    (h : Row.ofJsonFrom position vs = .ok rows) : ∀ v ∈ vs, (rowDetail? v).isSome := by
  induction vs generalizing position rows with
  | nil => simp
  | cons v vs ih =>
    simp only [Row.ofJsonFrom] at h
    split at h
    · cases h
    · rename_i row hv
      refine List.forall_mem_cons.2 ⟨rowDetail?_of_ofJson hv, ?_⟩
      cases hvs : Row.ofJsonFrom (position + 1) vs with
      | error => rw [hvs] at h; cases h
      | ok rows => exact ih hvs

theorem normalize_rows {vs : List Json} (h : ∀ v ∈ vs, (rowDetail? v).isSome) :
    normalize .sqlite (.array vs) = .ok ⟨.sqlite, assemble (rowsOf vs)⟩ := by
  have read := Row.ofJsonFrom_of_details h 0
  simp only [Nat.zero_add] at read
  simp only [normalize, Sqlite.read, read, Except.map]
  rfl

theorem details_of_normalize {vs : List Json} {tree : Tree}
    (h : normalize .sqlite (.array vs) = .ok tree) : ∀ v ∈ vs, (rowDetail? v).isSome := by
  simp only [normalize, Sqlite.read] at h
  cases e : Row.ofJsonFrom 0 vs with
  | error => rw [e] at h; cases h
  | ok rows => exact details_of_ofJsonFrom e

/-- Whatever order the rows come in, each gives one node. The roots are the rows that name
themselves or no row as their parent, and right below a node are the rows that name it, both in
row order. -/
theorem normalize_rows_of_loopless (vs : List Json) (detailed : ∀ v ∈ vs, (rowDetail? v).isSome)
    (distinct : ((rowsOf vs).map Row.id).Nodup)
    (loopless : ∀ row, ¬ Relation.TransGen (LinksTo (rowsOf vs)) row row) :
    ∃ forest : Forest Row,
      normalize .sqlite (.array vs) = .ok ⟨.sqlite, forest.nodes Row.node⟩ ∧
      forest.labels.Perm (rowsOf vs) ∧
      forest.roots = (rowsOf vs).filter (fun row =>
        row.parent = row.id ∨ ∀ other ∈ rowsOf vs, other.id ≠ row.parent) ∧
      ∀ b ∈ forest.branches, b.2.roots = (rowsOf vs).filter fun row =>
        row.parent = b.1.id ∧ row.parent ≠ row.id := by
  obtain ⟨forest, e, perm, roots, below⟩ :=
    assemble_of_reached distinct (reached_of_loopless loopless)
  refine ⟨forest, ?_, perm, ?_, ?_⟩
  · rw [normalize_rows detailed, e]
  · rw [roots]
    congr 1
    funext row
    rw [Bool.eq_iff_iff, Row.isRoot_iff, decide_eq_true_iff]
  · intro b hb
    rw [below b hb]
    congr 1
    funext row
    rw [Bool.eq_iff_iff, Row.isBelow_iff, decide_eq_true_iff]

def childFirst : List Json :=
  [.ofFields [("id", .ofNat 3), ("parent", .ofNat 7), ("detail", .string "SCAN t")],
    .string "SCAN u",
    .ofFields [("id", .ofNat 7), ("parent", .ofNat 7), ("detail", .string "CO-ROUTINE s")]]

theorem normalize_childFirst :
    (∀ row, ¬ Relation.TransGen (LinksTo (rowsOf childFirst)) row row) ∧
      ∃ forest : Forest Row,
        normalize .sqlite (.array childFirst) = .ok ⟨.sqlite, forest.nodes Row.node⟩ ∧
        forest.roots.map Row.id = [2, 7] := by
  have loopless : ∀ row, ¬ Relation.TransGen (LinksTo (rowsOf childFirst)) row row := by
    apply loopless_of_measure fun row => if row.id = 3 then 1 else 0
    rintro row parent ⟨hrow, hparent, named, other⟩
    have links : ∀ row ∈ rowsOf childFirst, ∀ parent ∈ rowsOf childFirst,
        row.parent = parent.id → row.parent ≠ row.id → row.id = 3 ∧ parent.id ≠ 3 := by decide
    obtain ⟨hrow, hparent⟩ := links row hrow parent hparent named other
    rw [if_pos hrow, if_neg hparent]
    decide
  refine ⟨loopless, ?_⟩
  obtain ⟨forest, read, _, roots, _⟩ :=
    normalize_rows_of_loopless childFirst (by decide) (by decide) loopless
  refine ⟨forest, read, ?_⟩
  rw [roots]
  decide

/-- A row whose parent is no row is a root exactly if no root listed before it has its number, nor
a row that links lead to from such a root. -/
theorem normalize_rows_root_iff {vs : List Json} {tree : Tree}
    (accepted : normalize .sqlite (.array vs) = .ok tree) :
    ∃ forest : Forest (Row × Nat),
      tree = ⟨.sqlite, forest.nodes (·.1.node)⟩ ∧ Arranges (rowsOf vs) forest ∧
      ∀ place row, (rowsOf vs)[place]? = some row →
        (∀ other ∈ rowsOf vs, other.id ≠ row.parent) →
        ((row, place) ∈ forest.roots ↔ ¬ Reached (rowsOf vs)
          ((((rowsOf vs).take place).filter (Row.isRoot (rowsOf vs))).map Row.id) row.id) := by
  have details := details_of_normalize accepted
  rw [normalize_rows details] at accepted
  obtain ⟨forest, b, e, h⟩ := assemble_gathers (rowsOf vs)
  refine ⟨forest, ?_, h.arranges, ?_⟩
  · rw [← e]
    exact (Except.ok.inj accepted).symm
  · intro place row found dangles
    exact h.mem_roots_iff found dangles

def repeatedNumber : List Json :=
  [.string "SCAN a",
    .ofFields [("id", .ofNat 1), ("parent", .ofNat 0), ("detail", .string "SCAN b")]]

theorem normalize_repeatedNumber :
    ∃ forest : Forest (Row × Nat),
      normalize .sqlite (.array repeatedNumber) = .ok ⟨.sqlite, forest.nodes (·.1.node)⟩ ∧
      (⟨1, 0, nodeOf "SCAN a"⟩, 0) ∈ forest.roots ∧
      (⟨1, 0, nodeOf "SCAN b"⟩, 1) ∉ forest.roots := by
  have accepted : normalize .sqlite (.array repeatedNumber) = _ := normalize_rows (by decide)
  obtain ⟨forest, e, _, iff⟩ := normalize_rows_root_iff accepted
  refine ⟨forest, ?_, (iff 0 _ rfl (by decide)).2 ?_, ?_⟩
  · rw [accepted, ← e]
  · intro reached
    have nothing {x : Int} (h : Reached (rowsOf repeatedNumber) [] x) : False := by
      induction h with
      | start h => cases h
      | link _ _ _ ih => exact ih
    exact nothing reached
  · intro root
    exact (iff 1 _ rfl (by decide)).1 root (.start (by decide))

/-- Of two rows whose parent is missing only one is a root: the number that the first has by its
position keeps the second, which gives the same number, out of the plan. -/
theorem repeated_number_loses_root :
    ∃ tree, normalize .sqlite (.array repeatedNumber) = .ok tree ∧
      tree.roots.length < ((rowsOf repeatedNumber).filter fun row =>
        ∀ other ∈ rowsOf repeatedNumber, other.id ≠ row.parent).length :=
  ⟨⟨.sqlite, [nodeOf "SCAN a"]⟩, rfl, by decide⟩

end SqlReview.Plan.Sqlite
