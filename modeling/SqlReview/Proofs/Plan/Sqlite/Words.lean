import SqlReview.Plan.Sqlite.Detail
import SqlReview.Proofs.Sql.Writing
import SqlReview.Proofs.Text.LetterCase
import SqlReview.Proofs.Text.Phrases

/-!
The detail of a step read word by word. A keyword is read where a whole word spells it. An index is
looked for after every word that only ends in USING, so the words that follow decide.
-/
namespace SqlReview.Pattern

open Text (isCapital isAsciiLetter upper)

section Upper

variable {w run : Text}

/-- A word is spelled by what has it as its capitals, where no long s or Kelvin sign is read. -/
theorem isSpelling_eq_upper
    (plain : ∀ letter ∈ w, ∀ c ∈ run, writes letter c = (c.toUpper == letter)) :
    isSpelling w run = (upper run == w) := by
  induction w generalizing run with
  | nil => cases run <;> rfl
  | cons letter w ih =>
    cases run with
    | nil => rfl
    | cons c run =>
      have later := ih fun l hl d hd =>
        plain l (List.mem_cons_of_mem _ hl) d (List.mem_cons_of_mem _ hd)
      rw [isSpelling_cons, plain letter List.mem_cons_self c List.mem_cons_self, later]
      rfl

theorem isSpelling_of_letters (letters : ∀ c ∈ run, isAsciiLetter c = true) :
    isSpelling w run = (upper run == w) := by
  apply isSpelling_eq_upper
  intro letter _ c hc
  have small := Text.isAsciiLetter_iff.1 (letters c hc)
  have noLong : (c.toNat == 383) = false := by
    rw [beq_eq_false_iff_ne]
    omega
  have noKelvin : (c.toNat == 8490) = false := by
    rw [beq_eq_false_iff_ne]
    omega
  rw [writes, noLong, noKelvin, Bool.and_false, Bool.and_false, Bool.or_false, Bool.or_false]

theorem isSpelling_of_noForeign (noS : 'S' ∉ w) (noK : 'K' ∉ w) :
    isSpelling w run = (upper run == w) := by
  apply isSpelling_eq_upper
  intro letter hl c _
  have notS : (letter == 'S') = false := beq_eq_false_iff_ne.2 (ne_of_mem_of_not_mem hl noS)
  have notK : (letter == 'K') = false := beq_eq_false_iff_ne.2 (ne_of_mem_of_not_mem hl noK)
  rw [writes, notS, notK, Bool.false_and, Bool.false_and, Bool.or_false, Bool.or_false]

theorem any_tails_of_letters (letters : ∀ c ∈ run, isAsciiLetter c = true) :
    run.tails.any (isSpelling w) = (upper run).tails.any (· == w) := by
  have spelled : ∀ t ∈ run.tails, isSpelling w t = (upper t == w) := by
    intro t ht
    apply isSpelling_of_letters
    intro c hc
    exact letters c (((List.mem_tails t run).1 ht).subset hc)
  rw [upper, List.map_tails, List.any_map, Bool.eq_iff_iff, List.any_eq_true, List.any_eq_true]
  apply exists_congr
  intro t
  apply and_congr_right
  intro ht
  rw [spelled t ht]
  rfl

end Upper

section Blank

variable {w u : Text}

/-- What is spelled has no space in it, so it ends before one. -/
theorem spells_append_space (capital : ∀ c ∈ w, isCapital c = true) (s : Text) :
    spells w (u ++ ' ' :: s) = spells w u := by
  induction w generalizing u with
  | nil => rfl
  | cons letter w ih =>
    obtain ⟨first, capital⟩ := List.forall_mem_cons.1 capital
    cases u with
    | nil =>
      have noSpace : writes letter ' ' = false := by
        rw [← Bool.not_eq_true]
        intro found
        exact absurd (isWord_of_writes first found) (by decide)
      change (writes letter ' ' && spells w s) = false
      rw [noSpace]
      rfl
    | cons c u => rw [List.cons_append, spells, spells, ih capital]

theorem blankCount_of_solid {c : Char} (solid : Text.isBlank c = false) (s : Text) :
    blankCount (c :: s) = 0 := by
  rw [blankCount, List.takeWhile_cons_of_neg (by simp [solid])]
  rfl

end Blank

end SqlReview.Pattern

namespace SqlReview.Sql.Keyword

variable {w w' : Text}

theorem letters_of_capital (capital : w.all Text.isCapital = true) (k : Keyword w) :
    ∀ c ∈ k.text, Text.isAsciiLetter c = true :=
  isAsciiLetter_of_eqIgnoreCase (List.all_eq_true.1 capital) k.spelled

theorem upper_text (capital : w.all Text.isCapital = true) (k : Keyword w) :
    Text.upper k.text = w := by
  have alike : Text.Alike k.text w := beq_iff_eq.1 k.spelled
  rw [Text.alike_iff_upper.1 alike, Text.upper]
  conv_rhs => rw [← List.map_id w]
  apply List.map_congr_left
  intro c hc
  have range := Text.isCapital_iff.1 (List.all_eq_true.1 capital c hc)
  rw [← Char.toNat_inj, Text.toNat_toUpper, if_neg (by omega)]
  rfl

theorem capitals_text (capital : w.all Text.isCapital = true) (k : Keyword w) :
    Text.capitals k.text = w := by
  have letters := k.letters_of_capital capital
  rw [Text.capitals_of_plain fun c hc => Text.isPlain_of_isAsciiLetter (letters c hc),
    k.upper_text capital]

theorem unbroken (capital : w.all Text.isCapital = true) (filled : w ≠ []) (k : Keyword w) :
    Text.Unbroken k.text where
  filled := by
    intro empty
    have upper := k.upper_text capital
    rw [empty] at upper
    exact filled upper.symm
  solid c hc := by
    apply Text.not_isBlank_of_isPlain
    rw [Text.isPlain, k.letters_of_capital capital c hc]
    rfl

theorem isSpelling_text (capital : w.all Text.isCapital = true) (k : Keyword w) :
    Pattern.isSpelling w' k.text = (w == w') := by
  rw [Pattern.isSpelling_of_letters (k.letters_of_capital capital), k.upper_text capital]

theorem any_tails_text (capital : w.all Text.isCapital = true) (k : Keyword w) :
    k.text.tails.any (Pattern.isSpelling w') = w.tails.any (· == w') := by
  rw [Pattern.any_tails_of_letters (k.letters_of_capital capital), k.upper_text capital]

end SqlReview.Sql.Keyword

namespace SqlReview.Plan.Sqlite

open Pattern (isSpelling spells blankCount)
open Sql (Keyword)
open Text (Unbroken spaced trimLeft isBlank)

section AfterWord

variable {w u v : Text} {ws : List Text}

theorem afterWord?_append (capital : w.all Text.isCapital = true)
    (solid : ∀ c ∈ u, isBlank c = false) (s : Text) :
    afterWord? w (u ++ ' ' :: s) = if isSpelling w u then some (trimLeft s) else none := by
  have capital := List.all_eq_true.1 capital
  rw [afterWord?, Pattern.spells_append_space capital, isSpelling]
  cases spelled : spells w u with
  | false => rfl
  | true =>
    have short := (Pattern.isWord_of_spells capital spelled).2
    rw [List.drop_append_of_le_length short]
    cases rest : u.drop w.length with
    | nil =>
      have long := List.drop_eq_nil_iff.1 rest
      have same : (u.length == w.length) = true := beq_iff_eq.2 (Nat.le_antisymm long short)
      rw [same]
      rfl
    | cons c t =>
      have hc : c ∈ u := List.mem_of_mem_drop (rest ▸ List.mem_cons_self)
      have longer : (u.length == w.length) = false := by
        rw [beq_eq_false_iff_ne]
        intro same
        rw [List.drop_eq_nil_of_le (Nat.le_of_eq same)] at rest
        cases rest
      have gap : blankCount (c :: t ++ ' ' :: s) = 0 :=
        Pattern.blankCount_of_solid (solid c hc) _
      rw [longer, gap]
      rfl

theorem afterWord?_last (w : Text) (solid : ∀ c ∈ u, isBlank c = false) :
    afterWord? w u = none := by
  have gap : blankCount (u.drop w.length) = 0 := by
    cases rest : u.drop w.length with
    | nil => rfl
    | cons c t =>
      have hc : c ∈ u := List.mem_of_mem_drop (rest ▸ List.mem_cons_self)
      exact Pattern.blankCount_of_solid (solid c hc) t
  rw [afterWord?, gap, bne_self_eq_false, Bool.and_false]
  rfl

theorem afterWord?_spaced (capital : w.all Text.isCapital = true)
    (h : ∀ x ∈ u :: v :: ws, Unbroken x) : afterWord? w (spaced (u :: v :: ws)) =
      if isSpelling w u then some (spaced (v :: ws)) else none := by
  obtain ⟨first, later⟩ := List.forall_mem_cons.1 h
  rw [Text.spaced_cons_cons, afterWord?_append capital first.solid, Text.trimLeft_spaced later]

theorem afterWord?_keyword {w' : Text} (capital : w.all Text.isCapital = true)
    (capital' : w'.all Text.isCapital = true) (k : Keyword w')
    (h : ∀ x ∈ k.text :: v :: ws, Unbroken x) : afterWord? w (spaced (k.text :: v :: ws)) =
      if w' == w then some (spaced (v :: ws)) else none := by
  rw [afterWord?_spaced capital h, k.isSpelling_text capital']

end AfterWord

section Index

variable {u v : Text} {ws : List Text}

def nameAfter? (rest : Text) : Option Text :=
  (afterWord? "INDEX" ((afterWord? "COVERING" rest).getD rest)).bind fun rest =>
    let name := rest.takeWhile fun c => !isBlank c && c != '('
    if name.isEmpty then none else some name

theorem indexHere?_eq (s : Text) : indexHere? s = (afterWord? "USING" s).bind nameAfter? := rfl

theorem indexOf?_append (solid : ∀ c ∈ u, isBlank c = false) (s : Text) :
    indexOf? (u ++ ' ' :: s) =
      (if u.tails.any (isSpelling "USING") then nameAfter? (trimLeft s) else none).or
        (indexOf? s) := by
  have capital : ("USING" : Text).all Text.isCapital = true := by decide
  induction u with
  | nil =>
    have here := afterWord?_append capital solid s
    rw [List.nil_append] at here ⊢
    rw [indexOf?, indexHere?_eq, here]
    rfl
  | cons c u ih =>
    have here := afterWord?_append capital solid s
    rw [List.cons_append] at here ⊢
    rw [indexOf?, indexHere?_eq, here, ih (List.forall_mem_cons.1 solid).2, List.tails_cons,
      List.any_cons, ← Option.or_assoc]
    congr 1
    -- A second end of the word that spells USING would tell of the same index.
    cases isSpelling "USING" (c :: u) with
    | false => rfl
    | true =>
      change (nameAfter? (trimLeft s)).or _ = nameAfter? (trimLeft s)
      split
      · exact Option.or_self
      · exact Option.or_none

theorem indexOf?_last (solid : ∀ c ∈ u, isBlank c = false) : indexOf? u = none := by
  induction u with
  | nil => rfl
  | cons c u ih =>
    rw [indexOf?, indexHere?_eq, afterWord?_last _ solid, ih (List.forall_mem_cons.1 solid).2]
    rfl

theorem indexOf?_spaced (h : ∀ x ∈ u :: v :: ws, Unbroken x) : indexOf? (spaced (u :: v :: ws)) =
    (if u.tails.any (isSpelling "USING") then nameAfter? (spaced (v :: ws)) else none).or
      (indexOf? (spaced (v :: ws))) := by
  obtain ⟨first, later⟩ := List.forall_mem_cons.1 h
  rw [Text.spaced_cons_cons, indexOf?_append first.solid, Text.trimLeft_spaced later]

theorem indexOf?_using (k : Keyword "USING") (h : ∀ x ∈ k.text :: v :: ws, Unbroken x) :
    indexOf? (spaced (k.text :: v :: ws)) =
      (nameAfter? (spaced (v :: ws))).or (indexOf? (spaced (v :: ws))) := by
  rw [indexOf?_spaced h, k.any_tails_text (by decide), if_pos (by decide)]

theorem indexOf?_other {w : Text} (capital : w.all Text.isCapital = true) (k : Keyword w)
    (apart : w.tails.any (· == ("USING" : Text)) = false)
    (h : ∀ x ∈ k.text :: v :: ws, Unbroken x) :
    indexOf? (spaced (k.text :: v :: ws)) = indexOf? (spaced (v :: ws)) := by
  rw [indexOf?_spaced h, k.any_tails_text capital, apart, if_neg Bool.false_ne_true,
    Option.none_or]

theorem nameAfter?_index {name : Text} (k : Keyword "INDEX") (plain : '(' ∉ name)
    (h : ∀ x ∈ k.text :: name :: ws, Unbroken x) :
    nameAfter? (spaced (k.text :: name :: ws)) = some name := by
  have here := h name (by simp)
  have read : (spaced (name :: ws)).takeWhile (fun c => !isBlank c && c != '(') = name := by
    apply Text.takeWhile_spaced
    · intro c hc
      have other : c ≠ '(' := ne_of_mem_of_not_mem hc plain
      simp [here.solid c hc, other]
    · decide
  rw [nameAfter?, afterWord?_keyword (by decide) (by decide) k h, if_neg (by decide),
    Option.getD_none, afterWord?_keyword (by decide) (by decide) k h, if_pos (by decide),
    Option.bind_some, read]
  exact if_neg (by simp [here.filled])

theorem nameAfter?_covering {name : Text} (c : Keyword "COVERING") (k : Keyword "INDEX")
    (plain : '(' ∉ name) (h : ∀ x ∈ c.text :: k.text :: name :: ws, Unbroken x) :
    nameAfter? (spaced (c.text :: k.text :: name :: ws)) = some name := by
  have later := (List.forall_mem_cons.1 h).2
  have skipped : nameAfter? (spaced (c.text :: k.text :: name :: ws)) =
      nameAfter? (spaced (k.text :: name :: ws)) := by
    rw [nameAfter?, nameAfter?, afterWord?_keyword (by decide) (by decide) c h,
      if_pos (by decide), afterWord?_keyword (by decide) (by decide) k later, if_neg (by decide)]
    rfl
  rw [skipped, nameAfter?_index k plain later]

theorem nameAfter?_other {w : Text} (capital : w.all Text.isCapital = true) (k : Keyword w)
    (covering : (w == ("COVERING" : Text)) = false) (index : (w == ("INDEX" : Text)) = false)
    (h : ∀ x ∈ k.text :: v :: ws, Unbroken x) : nameAfter? (spaced (k.text :: v :: ws)) = none := by
  rw [nameAfter?, afterWord?_keyword (by decide) capital k h, covering, if_neg Bool.false_ne_true,
    Option.getD_none, afterWord?_keyword (by decide) capital k h, index,
    if_neg Bool.false_ne_true, Option.bind_none]

end Index

end SqlReview.Plan.Sqlite
