import Mathlib.Data.List.Basic
import SqlReview.Plan.Sqlite.Outline

/-!
An outline read from its first line to its last. The branches that later lines may still belong to
wait on a stack, each less deep than the one on top of it; a line first closes those that are not
less deep than itself. What comes of it is the same as when the lines are read backwards.
-/
namespace SqlReview.Plan.Sqlite

def lineNode (line : Text) : Node := nodeOf (line.dropWhile isDrawing)

def keptLines (text : Text) : List Text := (Text.lines text).filter isKept

/-- The open branches, the innermost first, and the roots that are closed. -/
structure Progress where
  stack : List Branch
  roots : List Node

namespace Progress

/-- Closes branches from the innermost on as long as they pass a test. A closed branch is the last
child of the one around it, or a root when there is none. -/
def close (test : Branch → Bool) : Progress → Progress
  | ⟨[], roots⟩ => ⟨[], roots⟩
  | ⟨[b], roots⟩ => if test b then ⟨[], roots ++ [b.node]⟩ else ⟨[b], roots⟩
  | ⟨b :: outer :: stack, roots⟩ =>
    if test b then close test ⟨{ outer with node := outer.node.withChild b.node } :: stack, roots⟩
    else ⟨b :: outer :: stack, roots⟩
termination_by p => p.stack.length

def readLine (p : Progress) (line : Text) : Progress :=
  let p := p.close fun b => lineDepth line ≤ b.depth
  ⟨⟨lineDepth line, lineNode line⟩ :: p.stack, p.roots⟩

def absorb (later : List Branch) (b : Branch) : List Branch :=
  { b with node := { b.node with
    children := b.node.children ++
      (later.takeWhile fun l => b.depth < l.depth).map Branch.node } } ::
    later.dropWhile fun l => b.depth < l.depth

/-- The roots there will be when nothing but some branches comes after. -/
def outcome (p : Progress) (later : List Branch) : List Node :=
  p.roots ++ (p.stack.foldl absorb later).map Branch.node

/-- Every open branch is deeper than those around it. -/
def Nested (p : Progress) : Prop := p.stack.Pairwise fun b outer => outer.depth < b.depth

variable {p : Progress} {later : List Branch}

theorem absorb_of_shallow {b : Branch} (shallow : ∀ l ∈ later.head?, l.depth ≤ b.depth) :
    absorb later b = b :: later := by
  obtain ⟨depth, node⟩ := b
  cases later with
  | nil =>
    cases node
    simp [absorb]
  | cons l later =>
    have stop : ¬ depth < l.depth := Nat.not_lt.2 (shallow l rfl)
    cases node
    simp [absorb, stop]

theorem absorb_of_deep {b outer : Branch} (deep : outer.depth < b.depth) :
    absorb (b :: later) outer =
      absorb later { outer with node := outer.node.withChild b.node } := by
  simp [absorb, deep, Node.withChild]

section Close

variable {test : Branch → Bool}

theorem Nested.close (h : p.Nested) : (p.close test).Nested := by
  fun_induction Progress.close test p with
  | case1 roots => exact h
  | case2 b roots pass => exact List.Pairwise.nil
  | case3 b roots stop => exact h
  | case4 b outer stack roots pass ih =>
    have around := (List.pairwise_cons.1 h).2
    exact ih (List.pairwise_cons.2 (List.pairwise_cons.1 around))
  | case5 b outer stack roots stop => exact h

theorem not_test_of_close (test : Branch → Bool) (p : Progress) :
    ∀ b ∈ (p.close test).stack.head?, ¬ test b = true := by
  fun_induction Progress.close test p with
  | case1 roots => exact nofun
  | case2 b roots pass => exact nofun
  | case3 b roots stop =>
    intro top htop
    cases htop
    exact stop
  | case4 b outer stack roots pass ih => exact ih
  | case5 b outer stack roots stop =>
    intro top htop
    cases htop
    exact stop

/-- Closing branches that get nothing more makes no difference to what comes of the reading. -/
theorem Nested.outcome_close (h : p.Nested)
    (shallow : ∀ b, test b = true → ∀ l ∈ later.head?, l.depth ≤ b.depth) :
    (p.close test).outcome later = p.outcome later := by
  fun_induction Progress.close test p with
  | case1 roots => rfl
  | case2 b roots pass =>
    simp only [outcome, List.foldl_cons, List.foldl_nil, absorb_of_shallow (shallow b pass),
      List.map_cons, List.append_assoc, List.singleton_append]
  | case3 b roots stop => rfl
  | case4 b outer stack roots pass ih =>
    obtain ⟨inner, around⟩ := List.pairwise_cons.1 h
    have deep : outer.depth < b.depth := inner outer (List.mem_cons_self ..)
    rw [ih (List.pairwise_cons.2 (List.pairwise_cons.1 around))]
    simp only [outcome, List.foldl_cons, absorb_of_shallow (shallow b pass), absorb_of_deep deep]
  | case5 b outer stack roots stop => rfl

end Close

section Lines

variable {line : Text}

theorem Nested.readLine (h : p.Nested) : (p.readLine line).Nested := by
  refine List.pairwise_cons.2 ⟨?_, h.close⟩
  intro outer houter
  have closed := not_test_of_close (fun b => lineDepth line ≤ b.depth) p
  have nested : (p.close fun b => lineDepth line ≤ b.depth).Nested := h.close
  unfold Nested at nested
  cases e : (p.close fun b => lineDepth line ≤ b.depth).stack with
  | nil =>
    rw [e] at houter
    cases houter
  | cons b stack =>
    rw [e] at houter closed nested
    have top : b.depth < lineDepth line := by simpa using closed b rfl
    rcases List.mem_cons.1 houter with rfl | inside
    · exact top
    · exact Nat.lt_trans ((List.pairwise_cons.1 nested).1 outer inside) top

/-- A line read with what is open is a line put in front of what is to come. -/
theorem Nested.outcome_readLine (h : p.Nested) :
    (p.readLine line).outcome later = p.outcome (addLine line later) := by
  have shallow : ∀ b : Branch, decide (lineDepth line ≤ b.depth) = true →
      ∀ l ∈ (addLine line later).head?, l.depth ≤ b.depth := by
    intro b pass l hl
    cases hl
    exact of_decide_eq_true pass
  rw [← h.outcome_close shallow]
  rfl

theorem Nested.outcome_foldl (h : p.Nested) (lines : List Text) :
    (lines.foldl Progress.readLine p).outcome later = p.outcome (lines.foldr addLine later) := by
  induction lines generalizing p with
  | nil => rfl
  | cons line lines ih =>
    rw [List.foldl_cons, ih h.readLine, h.outcome_readLine, List.foldr_cons]

theorem Nested.foldl (h : p.Nested) (lines : List Text) :
    (lines.foldl Progress.readLine p).Nested := by
  induction lines generalizing p with
  | nil => exact h
  | cons line lines ih => exact ih h.readLine

end Lines

end Progress

def readForward (text : Text) : List Node :=
  (((keptLines text).foldl Progress.readLine ⟨[], []⟩).close fun _ => true).roots

/-- Both ways of reading an outline give the same nodes. -/
theorem readForward_eq_readOutline (text : Text) : readForward text = readOutline text := by
  have start : Progress.Nested ⟨[], []⟩ := List.Pairwise.nil
  let last := (keptLines text).foldl Progress.readLine ⟨[], []⟩
  have done : (last.close fun _ => true).outcome [] = last.outcome [] :=
    (start.foldl (keptLines text)).outcome_close fun _ _ _ hl => nomatch hl
  have closed := Progress.not_test_of_close (fun _ => true) last
  have none : (last.close fun _ => true).stack = [] := by
    cases e : (last.close fun _ => true).stack with
    | nil => rfl
    | cons b stack => exact absurd rfl (closed b (by rw [e]; rfl))
  rw [start.outcome_foldl] at done
  simp only [Progress.outcome, none, List.foldl_nil, List.map_nil, List.append_nil,
    List.nil_append] at done
  exact done

end SqlReview.Plan.Sqlite
