import Mathlib.Data.List.Chain
import Mathlib.Data.List.Infix
import SqlReview.Proofs.Text.Basic
import SqlReview.Proofs.Text.Letters
import SqlReview.Proofs.Text.Parts
import SqlReview.Text.Capitals

/-!
Phrases in a text of words with a space between any two. A phrase stands where a word ends in its
first word and what follows the space goes on with the rest of it, and putting a text into capitals
makes no new spaces.
-/
namespace SqlReview.Text

def spaced (ws : List Text) : Text := [' '].intercalate ws

structure Unbroken (w : Text) : Prop where
  filled : w ≠ []
  solid : ∀ c ∈ w, isBlank c = false

instance (w : Text) : Decidable (Unbroken w) :=
  decidable_of_iff (w ≠ [] ∧ w.any isBlank = false)
    ⟨fun h => ⟨h.1, fun c hc => by simpa using List.any_eq_false.1 h.2 c hc⟩,
      fun h => ⟨h.filled, List.any_eq_false.2 fun c hc => by simp [h.solid c hc]⟩⟩

theorem contains_iff {part s : Text} : contains part s = true ↔ part <:+: s := by
  induction s with
  | nil => rw [contains, List.isEmpty_iff, List.infix_nil]
  | cons c s ih =>
    rw [contains, Bool.or_eq_true, List.isPrefixOf_iff_prefix, ih, List.infix_cons_iff]

section Space

variable {a b s u : Text}

theorem isPrefixOf_append_space (ha : ' ' ∉ a) (hu : ' ' ∉ u) :
    (a ++ ' ' :: b).isPrefixOf (u ++ ' ' :: s) = (a == u && b.isPrefixOf s) := by
  induction a generalizing u with
  | nil =>
    cases u with
    | nil => simp
    | cons c u =>
      have other : (' ' == c) = false := beq_eq_false_iff_ne.2 (List.ne_of_not_mem_cons hu)
      rw [List.nil_append, List.cons_append, List.isPrefixOf_cons_cons, other]
      rfl
  | cons x a ih =>
    cases u with
    | nil =>
      have other : (x == ' ') = false :=
        beq_eq_false_iff_ne.2 (List.ne_of_not_mem_cons ha).symm
      rw [List.nil_append, List.cons_append, List.isPrefixOf_cons_cons, other]
      rfl
    | cons c u =>
      have later := ih (List.not_mem_of_not_mem_cons ha) (List.not_mem_of_not_mem_cons hu)
      rw [List.cons_append, List.cons_append, List.isPrefixOf_cons_cons, later, ← Bool.and_assoc]
      rfl

/-- Where the first space of a phrase meets that of a text. -/
theorem contains_append_space (ha : ' ' ∉ a) (hu : ' ' ∉ u) :
    contains (a ++ ' ' :: b) (u ++ ' ' :: s) = true ↔
      (a <:+ u ∧ b <+: s) ∨ contains (a ++ ' ' :: b) s = true := by
  have here {v : Text} (hv : ' ' ∉ v) : (a ++ ' ' :: b).isPrefixOf (v ++ ' ' :: s) = true ↔
      a = v ∧ b <+: s := by
    rw [isPrefixOf_append_space ha hv, Bool.and_eq_true, beq_iff_eq, List.isPrefixOf_iff_prefix]
  induction u with
  | nil =>
    have first := here hu
    rw [List.nil_append] at first ⊢
    rw [contains, Bool.or_eq_true, first, List.suffix_nil]
  | cons c u ih =>
    have first := here hu
    have later := ih (List.not_mem_of_not_mem_cons hu)
    rw [List.cons_append] at first ⊢
    rw [contains, Bool.or_eq_true, first, List.suffix_cons_iff, or_and_right, or_assoc]
    exact or_congr_right later

theorem not_contains_unspaced (hs : ' ' ∉ s) : contains (a ++ ' ' :: b) s = false := by
  have missing {v : Text} (hv : ' ' ∉ v) : (a ++ ' ' :: b).isPrefixOf v = false := by
    rw [← Bool.not_eq_true, List.isPrefixOf_iff_prefix]
    intro sub
    exact hv (sub.subset (by simp))
  induction s with
  | nil => simp [contains]
  | cons c s ih =>
    rw [contains, missing hs, ih (List.not_mem_of_not_mem_cons hs)]
    rfl

end Space

section Words

variable {u v : Text} {ws : List Text}

theorem spaced_singleton (u : Text) : spaced [u] = u := List.intercalate_singleton

theorem spaced_cons_cons (u v : Text) (ws : List Text) :
    spaced (u :: v :: ws) = u ++ ' ' :: spaced (v :: ws) := by
  rw [spaced, List.intercalate_cons_cons, List.append_assoc]
  rfl

theorem exists_spaced_cons (u : Text) (ws : List Text) :
    ∃ s, spaced (u :: ws) = u ++ s ∧ ∀ c ∈ s.head?, c = ' ' := by
  cases ws with
  | nil => exact ⟨[], by rw [spaced_singleton, List.append_nil], by simp⟩
  | cons v ws => exact ⟨_, spaced_cons_cons u v ws, by simp⟩

theorem takeWhile_spaced {p : Char → Bool} (inside : ∀ c ∈ u, p c = true) (space : p ' ' = false)
    (ws : List Text) : (spaced (u :: ws)).takeWhile p = u := by
  obtain ⟨s, split, after⟩ := exists_spaced_cons u ws
  rw [split]
  exact takeWhile_run inside fun c hc => after c hc ▸ space

theorem Unbroken.space_not_mem (h : Unbroken u) : ' ' ∉ u := fun found =>
  absurd (h.solid ' ' found) (by decide)

theorem spaced_ne_nil (h : Unbroken u) (ws : List Text) : spaced (u :: ws) ≠ [] := by
  obtain ⟨s, split, _⟩ := exists_spaced_cons u ws
  rw [split]
  exact List.append_ne_nil_of_left_ne_nil h.filled s

theorem tight_spaced (h : ∀ w ∈ ws, Unbroken w) : Tight (spaced ws) := by
  induction ws with
  | nil => exact ⟨by simp [spaced], by simp [spaced]⟩
  | cons u ws ih =>
    obtain ⟨first, later⟩ := List.forall_mem_cons.1 h
    have alone := tight_of_solid first.solid
    cases ws with
    | nil => rwa [spaced_singleton]
    | cons v ws =>
      have tail := spaced_ne_nil (later v List.mem_cons_self) ws
      rw [spaced_cons_cons]
      constructor
      · rw [List.head?_append_of_ne_nil _ first.filled]
        exact alone.1
      · rw [List.getLast?_append_of_ne_nil _ (List.cons_ne_nil _ _),
          List.getLast?_cons_of_ne_nil tail]
        exact (ih later).2

theorem trimLeft_spaced (h : ∀ w ∈ ws, Unbroken w) : trimLeft (spaced ws) = spaced ws :=
  trimLeft_eq_self (tight_spaced h).1

theorem trim_spaced (h : ∀ w ∈ ws, Unbroken w) : trim (spaced ws) = spaced ws :=
  trim_eq_self (tight_spaced h)

theorem prefix_spaced {b : Text} (hb : ' ' ∉ b) : b <+: spaced (u :: ws) ↔ b <+: u := by
  obtain ⟨s, split, after⟩ := exists_spaced_cons u ws
  rw [split]
  constructor
  · intro whole
    rcases List.prefix_or_prefix_of_prefix whole (List.prefix_append u s) with short | long
    · exact short
    · obtain ⟨t, rfl⟩ := long
      rw [List.prefix_append_right_inj] at whole
      cases t with
      | nil => simp
      | cons c t =>
        obtain ⟨s, rfl⟩ := whole
        have space := after c rfl
        exact absurd (by simp [space]) hb
  · intro short
    exact short.trans (List.prefix_append u s)

/-- Where the two words of a phrase meet. -/
theorem not_contains_spaced_iff {a b : Text} (ha : ' ' ∉ a) (hb : ' ' ∉ b)
    (h : ∀ w ∈ ws, ' ' ∉ w) : contains (a ++ ' ' :: b) (spaced ws) = false ↔
      ws.IsChain fun u v => ¬ (a <:+ u ∧ b <+: v) := by
  induction ws with
  | nil => simp [not_contains_unspaced (s := spaced []) (by simp [spaced])]
  | cons u ws ih =>
    obtain ⟨first, later⟩ := List.forall_mem_cons.1 h
    cases ws with
    | nil =>
      rw [spaced_singleton]
      exact iff_of_true (not_contains_unspaced first) (.singleton u)
    | cons v ws =>
      rw [List.isChain_cons_cons, ← ih later, spaced_cons_cons, ← Bool.not_eq_true,
        contains_append_space ha first, prefix_spaced hb, not_or, Bool.not_eq_true]

theorem infix_append_space {part s t : Text} (free : ' ' ∉ part) (filled : part ≠ []) :
    part <:+: s ++ ' ' :: t ↔ part <:+: s ∨ part <:+: t := by
  constructor
  · rintro ⟨x, y, e⟩
    rw [List.append_assoc] at e
    rcases Pattern.exists_side_of_mark free filled e.symm with ⟨y', rfl, -⟩ | ⟨x', -, rfl⟩
    · exact .inl ⟨x, y', List.append_assoc ..⟩
    · exact .inr ⟨x', y, List.append_assoc ..⟩
  · rintro (inside | inside)
    · exact inside.trans (List.infix_append [] s _)
    · exact inside.trans ((List.suffix_cons ' ' t).trans (List.suffix_append s _)).isInfix

theorem infix_spaced {part : Text} (free : ' ' ∉ part) (filled : part ≠ []) :
    part <:+: spaced ws ↔ ∃ w ∈ ws, part <:+: w := by
  induction ws with
  | nil => simp [spaced, filled]
  | cons u ws ih =>
    cases ws with
    | nil => simp [spaced_singleton]
    | cons v ws =>
      rw [spaced_cons_cons, infix_append_space free filled, ih]
      exact (List.exists_mem_cons_iff ..).symm

theorem spaced_prefix_append (filled : ws ≠ []) (more : List Text) :
    spaced ws <+: spaced (ws ++ more) := by
  induction ws with
  | nil => exact absurd rfl filled
  | cons u ws ih =>
    cases ws with
    | nil =>
      obtain ⟨s, split, _⟩ := exists_spaced_cons u more
      exact ⟨s, by rw [spaced_singleton, List.singleton_append, split]⟩
    | cons v ws =>
      have later := ih (List.cons_ne_nil v ws)
      rw [List.cons_append, List.cons_append, spaced_cons_cons, spaced_cons_cons,
        List.prefix_append_right_inj, List.prefix_cons_inj]
      exact later

theorem contains_spaced (filled : ws ≠ []) (before after : List Text) :
    contains (spaced ws) (spaced (before ++ (ws ++ after))) = true := by
  induction before with
  | nil => exact contains_iff.2 (spaced_prefix_append filled after).isInfix
  | cons u before ih =>
    cases rest : before ++ (ws ++ after) with
    | nil => simp [filled] at rest
    | cons v rest' =>
      rw [rest] at ih
      rw [contains_iff] at ih ⊢
      rw [List.cons_append, rest, spaced_cons_cons, ← List.singleton_append, ← List.append_assoc]
      exact ih.trans (List.suffix_append _ _).isInfix

end Words

section Capitals

variable {s t : Text} {c : Char}

theorem capitals_append (s t : Text) : capitals (s ++ t) = capitals s ++ capitals t :=
  List.flatMap_append

theorem capitals_spaced (ws : List Text) : capitals (spaced ws) = spaced (ws.map capitals) := by
  induction ws with
  | nil => rfl
  | cons u ws ih =>
    cases ws with
    | nil => rw [spaced_singleton, List.map_singleton, spaced_singleton]
    | cons v ws =>
      rw [spaced_cons_cons, capitals_append, List.map_cons, List.map_cons, spaced_cons_cons,
        ← List.map_cons, ← ih]
      rfl

theorem infix_capitals (h : s <:+: t) : capitals s <:+: capitals t := by
  obtain ⟨x, y, rfl⟩ := h
  rw [capitals_append, capitals_append]
  exact ⟨_, _, rfl⟩

theorem capitalForm_of_plain (h : isPlain c = true) : capitalForm c = [c.toUpper] := by
  have plain := isPlain_iff.1 h
  rw [capitalForm, if_pos (by omega)]

theorem capitals_of_plain (h : ∀ c ∈ s, isPlain c = true) : capitals s = upper s := by
  induction s with
  | nil => rfl
  | cons c s ih =>
    obtain ⟨first, h⟩ := List.forall_mem_cons.1 h
    rw [capitals, List.flatMap_cons, capitalForm_of_plain first]
    exact congrArg (c.toUpper :: ·) (ih h)

theorem eq_space_of_mem_capitalForm (h : ' ' ∈ capitalForm c) : c = ' ' := by
  unfold capitalForm at h
  split at h
  · have same := congrArg Char.toNat (List.mem_singleton.1 h)
    rw [toNat_toUpper] at same
    rw [← Char.toNat_inj]
    change 32 = _ at same
    change _ = 32
    split at same <;> omega
  · have foreign : ∀ entry ∈ foreignCapitals, ' ' ∉ entry.2 := by decide
    cases found : foreignCapitals.find? fun entry => entry.1 = c.toNat with
    | none =>
      rw [found] at h
      exact (List.mem_singleton.1 h).symm
    | some entry =>
      rw [found] at h
      exact absurd h (foreign entry (List.mem_of_find?_eq_some found))

theorem space_not_mem_capitals (h : ' ' ∉ s) : ' ' ∉ capitals s := by
  intro found
  obtain ⟨c, hc, here⟩ := List.mem_flatMap.1 found
  exact h (eq_space_of_mem_capitalForm here ▸ hc)

theorem not_contains_capitals_iff {a b : Text} {ws : List Text} (ha : ' ' ∉ a) (hb : ' ' ∉ b)
    (h : ∀ w ∈ ws, Unbroken w) : contains (a ++ ' ' :: b) (capitals (spaced ws)) = false ↔
      ws.IsChain fun u v => ¬ (a <:+ capitals u ∧ b <+: capitals v) := by
  rw [capitals_spaced, not_contains_spaced_iff ha hb, List.isChain_map]
  intro w hw
  obtain ⟨v, hv, rfl⟩ := List.mem_map.1 hw
  exact space_not_mem_capitals (h v hv).space_not_mem

theorem contains_capitals {ws : List Text} (filled : ws ≠ []) (before after : List Text) :
    contains (spaced (ws.map capitals)) (capitals (spaced (before ++ (ws ++ after)))) = true := by
  rw [capitals_spaced, List.map_append, List.map_append]
  exact contains_spaced (mt List.map_eq_nil_iff.1 filled) _ _

end Capitals

end SqlReview.Text
