import SqlReview.Plan.Sqlite.Rows
import SqlReview.Proofs.Plan.Forest

/-!
How the rows of a plan are gathered into trees. `Gathers` says it as a relation between the rows
still waiting, the rows to look at, and the forest that comes of them; `assemble_gathers` says that
assembling follows it. All that is true of a forest assembled is proved of the relation.
-/
namespace SqlReview.Plan.Sqlite

namespace Assembly

def waiting (a : Assembly) : List (Row × Nat) :=
  a.slots.zipIdx.filterMap fun (slot, place) => slot.map fun row => (row, place)

def remove (place : Nat) (a : Assembly) : Assembly := { a with slots := a.slots.set place none }

def enter (l : Row × Nat) (a : Assembly) : Assembly :=
  { a.remove l.2 with visited := l.1.id :: a.visited }

def start (rows : List Row) : Assembly := ⟨rows.map some, []⟩

theorem mem_waiting {a : Assembly} {row : Row} {place : Nat} :
    (row, place) ∈ a.waiting ↔ a.slots[place]? = some (some row) := by
  simp only [waiting, List.mem_filterMap, Prod.exists, List.mem_zipIdx_iff_getElem?]
  constructor
  · rintro ⟨slot, place', h, e⟩
    simp only [Option.map_eq_some_iff, Prod.mk.injEq] at e
    obtain ⟨_, rfl, rfl, rfl⟩ := e
    exact h
  · intro h
    exact ⟨some row, place, h, rfl⟩

theorem eq_of_place {a : Assembly} {l m : Row × Nat} (hl : l ∈ a.waiting) (hm : m ∈ a.waiting)
    (same : l.2 = m.2) : l = m := by
  have hl := mem_waiting.1 hl
  have hm := mem_waiting.1 hm
  rw [same, hm] at hl
  simp only [Option.some.injEq] at hl
  exact Prod.ext hl.symm same

theorem waiting_start (rows : List Row) : (start rows).waiting = rows.zipIdx := by
  have from_ (n : Nat) : ((rows.map some).zipIdx n).filterMap
      (fun (slot, place) => slot.map fun row => (row, place)) = rows.zipIdx n := by
    induction rows generalizing n with
    | nil => rfl
    | cons row rows ih =>
      simp only [List.map_cons, List.zipIdx_cons, List.filterMap_cons, Option.map_some]
      rw [ih]
  exact from_ 0

theorem places_eq (test : Row → Bool) (a : Assembly) :
    a.places test = (a.waiting.filter fun l => test l.1).map Prod.snd := by
  unfold places waiting
  generalize a.slots.zipIdx = slots
  induction slots with
  | nil => rfl
  | cons entry slots ih =>
    obtain ⟨slot, place⟩ := entry
    cases slot with
    | none => simpa using ih
    | some row =>
      simp only [List.filterMap_cons, Option.any_some, Option.map_some, List.filter_cons]
      cases test row with
      | false => simpa using ih
      | true => simpa using ih

theorem mem_waiting_remove {a : Assembly} {l : Row × Nat} {place : Nat} :
    l ∈ (a.remove place).waiting ↔ l ∈ a.waiting ∧ l.2 ≠ place := by
  obtain ⟨row, place'⟩ := l
  simp only [mem_waiting, remove, List.getElem?_set]
  by_cases same : place = place'
  · subst same
    simp
  · simp [same, Ne.symm same]

theorem waiting_remove_sublist (a : Assembly) (place : Nat) :
    (a.remove place).waiting.Sublist a.waiting := by
  have from_ (slots : List (Option Row)) (place n : Nat) :
      (((slots.set place none).zipIdx n).filterMap
        fun (slot, place) => slot.map fun row => (row, place)).Sublist
      ((slots.zipIdx n).filterMap fun (slot, place) => slot.map fun row => (row, place)) := by
    induction slots generalizing place n with
    | nil => simp
    | cons slot slots ih =>
      cases place with
      | zero => cases slot <;> simp
      | succ place => cases slot <;> simpa using ih place (n + 1)
  exact from_ a.slots place 0

/-- A row that is taken out waits no longer, so the rows that wait get fewer. -/
theorem length_waiting_remove_lt {a : Assembly} {l : Row × Nat} (h : l ∈ a.waiting) :
    (a.remove l.2).waiting.length < a.waiting.length := by
  have sub := waiting_remove_sublist a l.2
  apply Nat.lt_of_le_of_ne sub.length_le
  intro same
  rw [← sub.eq_of_length same] at h
  exact (mem_waiting_remove.1 h).2 rfl

@[simp] theorem visited_enter (a : Assembly) (l : Row × Nat) :
    (a.enter l).visited = l.1.id :: a.visited := rfl

end Assembly

def Row.isBelow (id : Int) (row : Row) : Bool := row.parent == id && row.id != id

/-- The rows of a list are looked at one after the other. One that waits no longer gives nothing,
nor does one whose number has a node; any other gives a tree with all rows below it that wait. -/
inductive Gathers : Assembly → List (Row × Nat) → Forest (Row × Nat) → Assembly → Prop where
  | done (a : Assembly) : Gathers a [] .empty a
  | gone {a b : Assembly} {l : Row × Nat} {ls : List (Row × Nat)} {f : Forest (Row × Nat)} :
      l ∉ a.waiting → Gathers a ls f b → Gathers a (l :: ls) f b
  | repeated {a b : Assembly} {l : Row × Nat} {ls : List (Row × Nat)} {f : Forest (Row × Nat)} :
      l ∈ a.waiting → l.1.id ∈ a.visited → Gathers (a.remove l.2) ls f b →
      Gathers a (l :: ls) f b
  | taken {a b c : Assembly} {l : Row × Nat} {ls : List (Row × Nat)}
      {below rest : Forest (Row × Nat)} :
      l ∈ a.waiting → l.1.id ∉ a.visited →
      Gathers (a.enter l) ((a.enter l).waiting.filter fun m => m.1.isBelow l.1.id) below b →
      Gathers b ls rest c → Gathers a (l :: ls) (.tree l below rest) c

namespace Gathers

variable {a b : Assembly} {ls : List (Row × Nat)} {f : Forest (Row × Nat)}

theorem waiting_sublist (h : Gathers a ls f b) : b.waiting.Sublist a.waiting := by
  induction h with
  | done => exact .refl _
  | gone _ _ ih => exact ih
  | repeated _ _ _ ih => exact ih.trans (Assembly.waiting_remove_sublist _ _)
  | taken _ _ _ _ ihb ihr => exact ihr.trans (ihb.trans (Assembly.waiting_remove_sublist _ _))

theorem append {c : Assembly} {ms : List (Row × Nat)} {g : Forest (Row × Nat)}
    (h : Gathers a ls f b) (k : Gathers b ms g c) : Gathers a (ls ++ ms) (f.append g) c := by
  induction h with
  | done => exact k
  | gone absent _ ih => exact .gone absent (ih k)
  | repeated waits again _ ih => exact .repeated waits again (ih k)
  | taken waits fresh below _ _ ih => exact .taken waits fresh below (ih k)

/-- The rows that wait and those looked at settle what is gathered. -/
theorem unique {c : Assembly} {g : Forest (Row × Nat)} (h : Gathers a ls f b)
    (k : Gathers a ls g c) : f = g ∧ b = c := by
  induction h generalizing g c with
  | done =>
    cases k
    exact ⟨rfl, rfl⟩
  | gone absent _ ih =>
    cases k with
    | gone _ k => exact ih k
    | repeated waits => exact absurd waits absent
    | taken waits => exact absurd waits absent
  | repeated waits again _ ih =>
    cases k with
    | gone absent => exact absurd waits absent
    | repeated _ _ k => exact ih k
    | taken _ fresh => exact absurd again fresh
  | taken waits fresh _ _ ihb ihr =>
    cases k with
    | gone absent => exact absurd waits absent
    | repeated _ again => exact absurd again fresh
    | taken _ _ below rest =>
      obtain ⟨rfl, rfl⟩ := ihb below
      obtain ⟨rfl, rfl⟩ := ihr rest
      exact ⟨rfl, rfl⟩

theorem split {ms : List (Row × Nat)} (h : Gathers a (ls ++ ms) f b) :
    ∃ g c k, Gathers a ls g c ∧ Gathers c ms k b ∧ f = g.append k := by
  induction ls generalizing a f with
  | nil => exact ⟨.empty, a, f, .done a, h, rfl⟩
  | cons l ls ih =>
    cases h with
    | gone absent h =>
      obtain ⟨g, c, k, hg, hk, rfl⟩ := ih h
      exact ⟨g, c, k, .gone absent hg, hk, rfl⟩
    | repeated waits again h =>
      obtain ⟨g, c, k, hg, hk, rfl⟩ := ih h
      exact ⟨g, c, k, .repeated waits again hg, hk, rfl⟩
    | taken waits fresh below h =>
      obtain ⟨g, c, k, hg, hk, rfl⟩ := ih h
      exact ⟨.tree l _ g, c, k, .taken waits fresh below hg, hk, rfl⟩

theorem roots_sublist (h : Gathers a ls f b) : f.roots.Sublist ls := by
  induction h with
  | done => exact .refl _
  | gone _ _ ih => exact ih.cons _
  | repeated _ _ _ ih => exact ih.cons _
  | taken _ _ _ _ _ ihr => exact ihr.cons_cons _

theorem labels_subset (h : Gathers a ls f b) : f.labels ⊆ a.waiting := by
  induction h with
  | done => exact List.nil_subset _
  | gone _ _ ih => exact ih
  | repeated _ _ _ ih => exact List.Subset.trans ih (Assembly.waiting_remove_sublist _ _).subset
  | taken waits _ hb _ ihb ihr =>
    have sub := hb.waiting_sublist.subset
    refine List.cons_subset.2 ⟨waits, List.append_subset.2 ⟨?_, ?_⟩⟩
    · exact List.Subset.trans ihb (Assembly.waiting_remove_sublist _ _).subset
    · have enter := List.Subset.trans ihr sub
      exact List.Subset.trans enter (Assembly.waiting_remove_sublist _ _).subset

theorem mem_visited (h : Gathers a ls f b) {x : Int} :
    x ∈ b.visited ↔ x ∈ a.visited ∨ x ∈ f.labels.map (·.1.id) := by
  induction h with
  | done => simp [Forest.labels]
  | gone _ _ ih => exact ih
  | repeated _ _ _ ih => exact ih
  | taken _ _ _ _ ihb ihr =>
    rw [ihr, ihb, Assembly.visited_enter]
    simp only [Forest.labels, List.map_cons, List.map_append, List.mem_cons, List.mem_append]
    grind

theorem ids_fresh (h : Gathers a ls f b) :
    (f.labels.map (·.1.id)).Nodup ∧ ∀ x ∈ f.labels.map (·.1.id), x ∉ a.visited := by
  induction h with
  | done => simp [Forest.labels]
  | gone _ _ ih => exact ih
  | repeated _ _ _ ih => exact ih
  | @taken a b c l ls below rest _ fresh hb _ ihb ihr =>
    obtain ⟨nodupb, freshb⟩ := ihb
    obtain ⟨nodupr, freshr⟩ := ihr
    simp only [Assembly.visited_enter, List.mem_cons, not_or] at freshb
    -- what comes after the row sees all numbers below it as visited
    have later : ∀ x ∈ rest.labels.map (·.1.id),
        x ≠ l.1.id ∧ x ∉ a.visited ∧ x ∉ below.labels.map (·.1.id) := by
      intro x hx
      have := mt hb.mem_visited.2 (freshr x hx)
      simp only [Assembly.visited_enter, List.mem_cons, not_or] at this
      exact ⟨this.1.1, this.1.2, this.2⟩
    simp only [Forest.labels, List.map_cons, List.map_append]
    constructor
    · refine List.nodup_cons.2 ⟨?_, List.nodup_append.2 ⟨nodupb, nodupr, ?_⟩⟩
      · intro h
        rcases List.mem_append.1 h with h | h
        · exact (freshb _ h).1 rfl
        · exact (later _ h).1 rfl
      · rintro x hx y hy rfl
        exact (later x hy).2.2 hx
    · intro x hx
      simp only [List.mem_cons, List.mem_append] at hx
      rcases hx with rfl | hx | hx
      · exact fresh
      · exact (freshb x hx).2
      · exact (later x hx).2.1

theorem settled (h : Gathers a ls f b) {m : Row × Nat} (before : m ∈ a.waiting)
    (after : m ∉ b.waiting) : m.1.id ∈ b.visited := by
  induction h with
  | done => exact absurd before after
  | gone _ _ ih => exact ih before after
  | @repeated a b l ls f waits again h ih =>
    by_cases same : m.2 = l.2
    · obtain rfl := Assembly.eq_of_place before waits same
      exact h.mem_visited.2 (.inl again)
    · exact ih (Assembly.mem_waiting_remove.2 ⟨before, same⟩) after
  | @taken a b c l ls below rest waits fresh hb hr ihb ihr =>
    rw [hr.mem_visited]
    by_cases still : m ∈ b.waiting
    · exact hr.mem_visited.1 (ihr still after)
    left
    by_cases same : m.2 = l.2
    · obtain rfl := Assembly.eq_of_place before waits same
      exact hb.mem_visited.2 (.inl (List.mem_cons_self ..))
    · exact ihb (Assembly.mem_waiting_remove.2 ⟨before, same⟩) still

theorem cleared (h : Gathers a ls f b) {m : Row × Nat} (looked : m ∈ ls) : m ∉ b.waiting := by
  induction h with
  | done => cases looked
  | gone absent h ih =>
    rcases List.mem_cons.1 looked with rfl | looked
    · exact mt (h.waiting_sublist.subset ·) absent
    · exact ih looked
  | repeated _ _ h ih =>
    rcases List.mem_cons.1 looked with rfl | looked
    · intro still
      exact (Assembly.mem_waiting_remove.1 (h.waiting_sublist.subset still)).2 rfl
    · exact ih looked
  | taken _ _ hb hr _ ihr =>
    rcases List.mem_cons.1 looked with rfl | looked
    · intro still
      have still := hb.waiting_sublist.subset (hr.waiting_sublist.subset still)
      exact (Assembly.mem_waiting_remove.1 still).2 rfl
    · exact ihr looked

theorem closed (h : Gathers a ls f b) {m : Row × Nat} (still : m ∈ b.waiting)
    (named : m.1.parent ∈ f.labels.map (·.1.id)) : m.1.parent = m.1.id := by
  induction h with
  | done => cases named
  | gone _ _ ih => exact ih still named
  | repeated _ _ _ ih => exact ih still named
  | @taken a b c l ls below rest _ _ hb hr ihb ihr =>
    have before := hr.waiting_sublist.subset still
    simp only [Forest.labels, List.map_cons, List.map_append, List.mem_cons, List.mem_append]
      at named
    rcases named with named | named | named
    · apply Decidable.byContradiction
      intro other
      refine hb.cleared ?_ before
      simp only [List.mem_filter, Row.isBelow, Bool.and_eq_true, beq_iff_eq, bne_iff_ne]
      refine ⟨hb.waiting_sublist.subset before, named, fun same => other ?_⟩
      rw [named, same]
    · exact ihb before named
    · exact ihr still named

/-- A row goes on waiting until it is looked at itself, or the row it belongs below has a node. -/
theorem remains (h : Gathers a ls f b) {m : Row × Nat} (before : m ∈ a.waiting) (other : m ∉ ls)
    (unnamed : m.1.parent ∉ f.labels.map (·.1.id)) : m ∈ b.waiting := by
  induction h with
  | done => exact before
  | gone _ _ ih => exact ih before (mt (List.mem_cons_of_mem _) other) unnamed
  | @repeated a b l ls f waits _ _ ih =>
    have place : m.2 ≠ l.2 := fun same =>
      other (Assembly.eq_of_place before waits same ▸ List.mem_cons_self ..)
    exact ih (Assembly.mem_waiting_remove.2 ⟨before, place⟩)
      (mt (List.mem_cons_of_mem _) other) unnamed
  | @taken a b c l ls below rest waits _ _ _ ihb ihr =>
    simp only [Forest.labels, List.map_cons, List.map_append, List.mem_cons, List.mem_append,
      not_or] at unnamed
    have place : m.2 ≠ l.2 := fun same =>
      other (Assembly.eq_of_place before waits same ▸ List.mem_cons_self ..)
    refine ihr (ihb (Assembly.mem_waiting_remove.2 ⟨before, place⟩) ?_ unnamed.2.1)
      (mt (List.mem_cons_of_mem _) other) unnamed.2.2
    intro looked
    simp only [List.mem_filter, Row.isBelow, Bool.and_eq_true, beq_iff_eq] at looked
    exact unnamed.1 looked.2.1

/-- What stands right below a row of the forest belongs there, and keeps the order. -/
theorem linked (h : Gathers a ls f b) {t : (Row × Nat) × Forest (Row × Nat)}
    (ht : t ∈ f.branches) :
    t.2.roots.Sublist (a.waiting.filter fun m => m.1.isBelow t.1.1.id) := by
  induction h with
  | done => cases ht
  | gone _ _ ih => exact ih ht
  | repeated _ _ _ ih => exact (ih ht).trans ((Assembly.waiting_remove_sublist _ _).filter _)
  | @taken a b c l ls below rest _ _ hb hr ihb ihr =>
    have sub : (a.enter l).waiting.Sublist a.waiting := Assembly.waiting_remove_sublist _ _
    simp only [Forest.branches, List.mem_cons, List.mem_append] at ht
    rcases ht with rfl | ht | ht
    · exact hb.roots_sublist.trans (sub.filter _)
    · exact (ihb ht).trans (sub.filter _)
    · exact (ihr ht).trans ((hb.waiting_sublist.trans sub).filter _)

end Gathers

namespace Assembly

def extend (take : Nat → Assembly → Option Node × Assembly) (found : List Node × Assembly)
    (place : Nat) : List Node × Assembly :=
  (found.1 ++ (take place found.2).1.toList, (take place found.2).2)

theorem extend_eq (take : Nat → Assembly → Option Node × Assembly) :
    (fun (found, a) place =>
      match take place a with
      | (some node, a) => (found ++ [node], a)
      | (none, a) => (found, a)) = extend take := by
  funext ⟨found, a⟩ place
  rcases e : take place a with ⟨node | node, b⟩ <;> simp [extend, e]

theorem takeTree_of_gone {a : Assembly} {l : Row × Nat} (levels : Nat)
    (same : ∀ row, (row, l.2) ∈ a.waiting → row = l.1) (h : l ∉ a.waiting) :
    a.takeTree levels l.2 = (none, a) := by
  cases levels with
  | zero => rfl
  | succ levels =>
    unfold takeTree
    split
    · rename_i row slot
      have other := mem_waiting.2 slot
      obtain rfl := same row other
      exact absurd other h
    · rfl

theorem takeTree_of_repeated {a : Assembly} {l : Row × Nat} (levels : Nat) (h : l ∈ a.waiting)
    (again : l.1.id ∈ a.visited) : a.takeTree (levels + 1) l.2 = (none, a.remove l.2) := by
  have slot : a.slots[l.2]? = some (some l.1) := mem_waiting.1 h
  simp only [takeTree, slot, List.contains_eq_mem, again, decide_true, if_true, remove]

theorem takeTree_of_fresh {a : Assembly} {l : Row × Nat} (levels : Nat) (h : l ∈ a.waiting)
    (fresh : l.1.id ∉ a.visited) :
    a.takeTree (levels + 1) l.2 =
      let found := (((a.enter l).waiting.filter fun m => m.1.isBelow l.1.id).map Prod.snd).foldl
        (extend (takeTree levels)) ([], a.enter l)
      (some { l.1.node with children := l.1.node.children ++ found.1 }, found.2) := by
  have slot : a.slots[l.2]? = some (some l.1) := mem_waiting.1 h
  rw [← places_eq (Row.isBelow l.1.id), ← extend_eq]
  simp only [takeTree, slot, List.contains_eq_mem, fresh, decide_false, Bool.false_eq_true,
    if_false]
  rfl

end Assembly

section Run

variable {rows : List Row}

/-- Both loops over rows follow the relation when the look at a single row does. -/
theorem foldl_gathers {take : Nat → Assembly → Option Node × Assembly} {bound : Nat}
    (step : ∀ l ∈ rows.zipIdx, ∀ a : Assembly, a.waiting ⊆ rows.zipIdx →
      a.waiting.length ≤ bound → ∃ f : Forest (Row × Nat),
        (take l.2 a).1.toList = f.nodes (·.1.node) ∧ Gathers a [l] f (take l.2 a).2)
    {ls : List (Row × Nat)} (known : ls ⊆ rows.zipIdx) {a : Assembly}
    (within : a.waiting ⊆ rows.zipIdx) (few : a.waiting.length ≤ bound) (found : List Node) :
    ∃ (f : Forest (Row × Nat)) (b : Assembly), Gathers a ls f b ∧
      (ls.map Prod.snd).foldl (Assembly.extend take) (found, a) =
        (found ++ f.nodes (·.1.node), b) := by
  induction ls generalizing a found with
  | nil => exact ⟨.empty, a, .done a, by simp [Forest.nodes]⟩
  | cons l ls ih =>
    obtain ⟨hl, known⟩ := List.cons_subset.1 known
    obtain ⟨f, hf, h⟩ := step l hl a within few
    have sub := h.waiting_sublist
    obtain ⟨g, c, k, hg⟩ := ih known (List.Subset.trans sub.subset within)
      (Nat.le_trans sub.length_le few) (found ++ f.nodes (·.1.node))
    refine ⟨f.append g, c, h.append k, ?_⟩
    rw [Forest.nodes_append, ← List.append_assoc, ← hg, ← hf]
    rfl

/-- Each level of the run takes a row out, so a level for every waiting row is enough. -/
theorem takeTree_gathers (levels : Nat) (l : Row × Nat) (hl : l ∈ rows.zipIdx) (a : Assembly)
    (within : a.waiting ⊆ rows.zipIdx) (enough : a.waiting.length ≤ levels) :
    ∃ f : Forest (Row × Nat), (a.takeTree levels l.2).1.toList = f.nodes (·.1.node) ∧
      Gathers a [l] f (a.takeTree levels l.2).2 := by
  induction levels generalizing l a with
  | zero =>
    have none_ : a.waiting = [] := List.eq_nil_of_length_eq_zero (Nat.le_zero.1 enough)
    exact ⟨.empty, rfl, .gone (by simp [none_]) (.done a)⟩
  | succ levels ih =>
    by_cases waits : l ∈ a.waiting
    · by_cases again : l.1.id ∈ a.visited
      · rw [Assembly.takeTree_of_repeated levels waits again]
        exact ⟨.empty, rfl, .repeated waits again (.done _)⟩
      · -- one row fewer waits, so one level fewer is enough below it
        have less := Assembly.length_waiting_remove_lt waits
        have within' : (a.enter l).waiting ⊆ rows.zipIdx :=
          List.Subset.trans (Assembly.waiting_remove_sublist a l.2).subset within
        have known : ((a.enter l).waiting.filter fun m => m.1.isBelow l.1.id) ⊆ rows.zipIdx :=
          fun _ h => within' (List.mem_filter.1 h).1
        obtain ⟨f, b, h, found⟩ := foldl_gathers ih known within'
          (Nat.le_of_lt_succ (Nat.lt_of_lt_of_le less enough)) []
        rw [Assembly.takeTree_of_fresh levels waits again]
        simp only [found, List.nil_append]
        exact ⟨.tree l f .empty, rfl, .taken waits again h (.done b)⟩
    · have same : ∀ row, (row, l.2) ∈ a.waiting → row = l.1 := by
        intro row other
        have h := List.mem_zipIdx_iff_getElem?.1 (within other)
        rw [List.mem_zipIdx_iff_getElem?.1 hl] at h
        exact (Option.some.inj h).symm
      rw [Assembly.takeTree_of_gone (levels + 1) same waits]
      exact ⟨.empty, rfl, .gone waits (.done a)⟩

/-- The forest when trees may grow to a number of levels and are cut off below. -/
def assembleWithin (levels : Nat) (rows : List Row) : List Node :=
  let start := Assembly.start rows
  ((start.places (Row.isRoot rows)).foldl
    (fun (roots, a) place =>
      match a.takeTree levels place with
      | (some root, a) => (roots ++ [root], a)
      | (none, a) => (roots, a))
    (([] : List Node), start)).1

theorem assemble_eq_assembleWithin (rows : List Row) :
    assemble rows = assembleWithin rows.length rows := rfl

theorem assembleWithin_gathers (rows : List Row) {levels : Nat} (enough : rows.length ≤ levels) :
    ∃ (f : Forest (Row × Nat)) (b : Assembly), assembleWithin levels rows = f.nodes (·.1.node) ∧
      Gathers (.start rows) (rows.zipIdx.filter fun l => l.1.isRoot rows) f b := by
  have all := Assembly.waiting_start rows
  have known : (rows.zipIdx.filter fun l => l.1.isRoot rows) ⊆ rows.zipIdx :=
    fun _ h => (List.mem_filter.1 h).1
  have few : (Assembly.start rows).waiting.length ≤ levels := by
    rw [all, List.length_zipIdx]
    exact enough
  obtain ⟨f, b, h, found⟩ := foldl_gathers (takeTree_gathers levels) known
    (fun _ h => all ▸ h) few []
  refine ⟨f, b, ?_, h⟩
  rw [← all, ← Assembly.places_eq, ← Assembly.extend_eq] at found
  exact congrArg Prod.fst found

theorem assemble_gathers (rows : List Row) :
    ∃ (f : Forest (Row × Nat)) (b : Assembly), assemble rows = f.nodes (·.1.node) ∧
      Gathers (.start rows) (rows.zipIdx.filter fun l => l.1.isRoot rows) f b := by
  rw [assemble_eq_assembleWithin]
  exact assembleWithin_gathers rows (Nat.le_refl _)

end Run

end SqlReview.Plan.Sqlite
