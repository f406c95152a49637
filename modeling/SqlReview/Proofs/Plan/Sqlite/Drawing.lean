import Mathlib.Data.List.Basic
import SqlReview.Plan.Sqlite.Outline
import SqlReview.Proofs.Plan.Forest
import SqlReview.Proofs.Text.Basic

/-!
The outline that the shell of SQLite draws of a forest, and that it is read back as the same forest,
however many levels a line goes up from the one before it.
-/
namespace SqlReview.Plan.Sqlite

/-- A detail that a line can end in: what is drawn before it can be told from it. -/
structure Printable (detail : Text) : Prop where
  filled : detail ≠ []
  trimmed : Text.trim detail = detail
  unbroken : '\n' ∉ detail
  plain : ∀ c ∈ detail.head?, c ≠ '|' ∧ c ≠ '\x60' ∧ c ≠ '-'

/-- What one level above a node puts in front of its line: a bar where siblings follow. -/
def bar (goesOn : Bool) : Text := if goesOn then "|  " else "   "

def elbow (last : Bool) : Text := if last then "\x60--" else "|--"

/-- One line per node, each before those below it. Nothing is said of where bars stand, since
nothing is read off them. -/
inductive Draws : Nat → Forest Text → List Text → Prop where
  | empty {depth : Nat} : Draws depth .empty []
  | tree {detail : Text} {under rest : Forest Text} {inner later : List Text} (bars : List Bool)
      (last : Bool) : Draws (bars.length + 1) under inner → Draws bars.length rest later →
      Draws bars.length (.tree detail under rest)
        ((bars.flatMap bar ++ elbow last ++ detail) :: (inner ++ later))

def drawing (bars : List Bool) : Forest Text → List Text
  | .empty => []
  | .tree detail under rest =>
    let last := rest.roots.isEmpty
    (bars.flatMap bar ++ elbow last ++ detail) ::
      (drawing (bars ++ [!last]) under ++ drawing bars rest)

theorem draws_drawing (bars : List Bool) (f : Forest Text) :
    Draws bars.length f (drawing bars f) := by
  induction f generalizing bars with
  | empty => exact .empty
  | tree detail under rest ihu ihr =>
    apply Draws.tree
    · have inner := ihu (bars ++ [!rest.roots.isEmpty])
      rw [List.length_append] at inner
      exact inner
    · exact ihr bars

section Line

variable {detail : Text}

theorem bar_drawn (goesOn : Bool) : ∀ c ∈ bar goesOn, isDrawing c = true := by
  cases goesOn <;> simp [bar, isDrawing]

theorem elbow_drawn (last : Bool) : ∀ c ∈ elbow last, isDrawing c = true := by
  cases last <;> simp [elbow, isDrawing]

theorem margin_drawn (bars : List Bool) (last : Bool) :
    ∀ c ∈ bars.flatMap bar ++ elbow last, isDrawing c = true := by
  intro c hc
  rcases List.mem_append.1 hc with hc | hc
  · obtain ⟨goesOn, _, hc⟩ := List.mem_flatMap.1 hc
    exact bar_drawn goesOn c hc
  · exact elbow_drawn last c hc

theorem margin_length (bars : List Bool) (last : Bool) :
    (bars.flatMap bar ++ elbow last).length = 3 * (bars.length + 1) := by
  induction bars with
  | nil => cases last <;> rfl
  | cons goesOn bars ih =>
    have wide : (bar goesOn).length = 3 := by cases goesOn <;> rfl
    rw [List.flatMap_cons, List.append_assoc, List.length_append, ih, wide, List.length_cons]
    omega

theorem Printable.not_drawn (h : Printable detail) : ∀ c ∈ detail.head?, isDrawing c = false := by
  intro c hc
  have blank : Text.isBlank c = false := by
    have tight := Text.tight_trim detail
    rw [h.trimmed] at tight
    exact tight.1 c hc
  obtain ⟨noBar, noTick, noDash⟩ := h.plain c hc
  have noSpace : c ≠ ' ' := by
    rintro rfl
    exact absurd blank (by decide)
  simp [isDrawing, noBar, noTick, noDash, noSpace]

theorem lineDepth_drawn (h : Printable detail) (bars : List Bool) (last : Bool) :
    lineDepth (bars.flatMap bar ++ elbow last ++ detail) = bars.length := by
  unfold lineDepth
  rw [Text.takeWhile_run (margin_drawn bars last) h.not_drawn, margin_length]
  omega

theorem dropWhile_drawn (h : Printable detail) (bars : List Bool) (last : Bool) :
    (bars.flatMap bar ++ elbow last ++ detail).dropWhile isDrawing = detail :=
  Text.dropWhile_run (margin_drawn bars last) h.not_drawn

theorem drawn_starts (bars : List Bool) (last : Bool) (s : Text) :
    ∃ blanks c t, bars.flatMap bar ++ elbow last ++ s = blanks ++ c :: t ∧
      (∀ b ∈ blanks, Text.isBlank b = true) ∧ (c = '|' ∨ c = '\x60') := by
  induction bars with
  | nil =>
    cases last with
    | true => exact ⟨[], '\x60', '-' :: '-' :: s, by simp [elbow], by simp, .inr rfl⟩
    | false => exact ⟨[], '|', '-' :: '-' :: s, by simp [elbow], by simp, .inl rfl⟩
  | cons goesOn bars ih =>
    cases goesOn with
    | true =>
      exact ⟨[], '|', ' ' :: ' ' :: (bars.flatMap bar ++ elbow last ++ s), by simp [bar], by simp,
        .inl rfl⟩
    | false =>
      obtain ⟨blanks, c, t, e, blank, hc⟩ := ih
      refine ⟨bar false ++ blanks, c, t, ?_, ?_, hc⟩
      · rw [List.flatMap_cons, List.append_assoc, List.append_assoc, List.append_assoc, ← e,
          List.append_assoc]
      · intro b hb
        rcases List.mem_append.1 hb with hb | hb
        · have spaces : bar false = List.replicate 3 ' ' := by decide
          rw [spaces] at hb
          rw [List.eq_of_mem_replicate hb]
          rfl
        · exact blank b hb

theorem isKept_drawn (bars : List Bool) (last : Bool) :
    isKept (bars.flatMap bar ++ elbow last ++ detail) = true := by
  obtain ⟨blanks, c, t, e, blank, hc⟩ := drawn_starts bars last detail
  have solid : Text.isBlank c = false := by
    rcases hc with rfl | rfl <;> decide
  obtain ⟨u, hu⟩ := Text.trim_cons (s := t) solid
  have other : c :: u ≠ header := by
    intro same
    have first : some c = header.head? := congrArg List.head? same
    rcases hc with rfl | rfl
    · exact absurd first (by decide)
    · exact absurd first (by decide)
  unfold isKept
  rw [e, Text.trim_blank_append blank, hu]
  simpa using other

theorem isLine_drawn (h : Printable detail) (bars : List Bool) (last : Bool) :
    Text.IsLine (bars.flatMap bar ++ elbow last ++ detail) := by
  have tight := Text.tight_trim detail
  rw [h.trimmed] at tight
  refine ⟨?_, ?_, ?_⟩
  · intro hn
    rcases List.mem_append.1 hn with hn | hn
    · exact absurd (margin_drawn bars last _ hn) (by decide)
    · exact h.unbroken hn
  · rw [List.getLast?_append_of_ne_nil _ h.filled]
    intro ends
    exact absurd (tight.2 '\r' ends) (by decide)
  · simp [h.filled]

theorem addLine_drawn (h : Printable detail) (bars : List Bool) (last : Bool) (under : List Node)
    {later : List Branch} (shallow : ∀ b ∈ later.head?, b.depth ≤ bars.length) :
    addLine (bars.flatMap bar ++ elbow last ++ detail)
        (under.map (Branch.mk (bars.length + 1)) ++ later) =
      ⟨bars.length, { nodeOf detail with children := (nodeOf detail).children ++ under }⟩ ::
        later := by
  have deeper : ∀ b ∈ under.map (Branch.mk (bars.length + 1)),
      decide (bars.length < b.depth) = true := by
    intro b hb
    obtain ⟨n, _, rfl⟩ := List.mem_map.1 hb
    exact decide_eq_true (Nat.lt_succ_self _)
  have stops : ∀ b ∈ later.head?, decide (bars.length < b.depth) = false := by
    intro b hb
    exact decide_eq_false (Nat.not_lt.2 (shallow b hb))
  have kept : (under.map (Branch.mk (bars.length + 1))).map Branch.node = under := by
    rw [List.map_map]
    exact List.map_id _
  unfold addLine
  rw [lineDepth_drawn h, dropWhile_drawn h]
  simp only [Text.takeWhile_run deeper stops, Text.dropWhile_run deeper stops, kept]

end Line

section Drawn

variable {depth : Nat} {f : Forest Text} {ls : List Text}

theorem Draws.forall_lines {P : Text → Prop} (h : Draws depth f ls)
    (printable : ∀ l ∈ f.labels, Printable l)
    (line : ∀ (bars : List Bool) (last : Bool) (detail : Text), Printable detail →
      P (bars.flatMap bar ++ elbow last ++ detail)) : ∀ l ∈ ls, P l := by
  induction h with
  | empty => simp
  | tree bars last _ _ ihu ihr =>
    simp only [Forest.labels, List.forall_mem_cons, List.forall_mem_append] at printable ⊢
    obtain ⟨first, under, rest⟩ := printable
    exact ⟨line bars last _ first, ihu under, ihr rest⟩

/-- Lines that are read from the last one backwards put their forest in front of what comes later,
if that does not start deeper. -/
theorem Draws.foldr_addLine (h : Draws depth f ls) (printable : ∀ l ∈ f.labels, Printable l)
    {later : List Branch} (shallow : ∀ b ∈ later.head?, b.depth ≤ depth) :
    ls.foldr addLine later = (f.nodes nodeOf).map (Branch.mk depth) ++ later := by
  induction h generalizing later with
  | empty => rfl
  | @tree detail under rest _ _ bars last _ _ ihu ihr =>
    simp only [Forest.labels, List.forall_mem_cons, List.forall_mem_append] at printable
    obtain ⟨first, printableu, printabler⟩ := printable
    have siblings : ∀ b ∈ ((rest.nodes nodeOf).map (Branch.mk bars.length) ++ later).head?,
        b.depth ≤ bars.length := by
      intro b hb
      cases e : rest.nodes nodeOf with
      | nil =>
        rw [e] at hb
        exact shallow b hb
      | cons n ns =>
        rw [e] at hb
        cases hb
        exact Nat.le_refl _
    rw [List.foldr_cons, List.foldr_append, ihr printabler shallow,
      ihu printableu fun b hb => Nat.le_succ_of_le (siblings b hb),
      addLine_drawn first bars last _ siblings]
    rfl

theorem Draws.readOutline_eq (h : Draws 0 f ls) (printable : ∀ l ∈ f.labels, Printable l)
    {top : List Text} (headed : top = [] ∨ top = [header]) {text : Text}
    (printed : text = (top ++ ls).flatMap (· ++ ['\n']) ∨
      text ++ ['\n'] = (top ++ ls).flatMap (· ++ ['\n'])) :
    readOutline text = f.nodes nodeOf := by
  have skipped : ∀ l ∈ top, Text.IsLine l ∧ ¬ isKept l = true := by
    rcases headed with rfl | rfl
    · simp
    · rw [List.forall_mem_singleton]
      exact ⟨⟨by decide, by decide, by decide⟩, by decide⟩
  have kept : ∀ l ∈ ls, Text.IsLine l ∧ isKept l = true :=
    h.forall_lines (P := fun l => Text.IsLine l ∧ isKept l = true) printable fun bars last _ hd =>
      ⟨isLine_drawn hd bars last, isKept_drawn bars last⟩
  have lines : ∀ l ∈ top ++ ls, Text.IsLine l := by
    intro l hl
    rcases List.mem_append.1 hl with hl | hl
    · exact (skipped l hl).1
    · exact (kept l hl).1
  unfold readOutline
  rw [Text.lines_printed lines printed, List.filter_append,
    List.filter_eq_nil_iff.2 fun l hl => (skipped l hl).2,
    List.filter_eq_self.2 fun l hl => (kept l hl).2, List.nil_append,
    h.foldr_addLine printable (by simp), List.append_nil, List.map_map]
  exact List.map_id _

end Drawn

end SqlReview.Plan.Sqlite
