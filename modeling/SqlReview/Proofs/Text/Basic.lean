import SqlReview.Text.Basic

/-!
Blanks at the ends of a text, and texts cut at marks, words and line ends.
-/
namespace SqlReview.Text

/-- No blank at either end. -/
def Tight (s : Text) : Prop :=
  (∀ c ∈ s.head?, isBlank c = false) ∧ ∀ c ∈ s.getLast?, isBlank c = false

section Run

variable {α : Type} {p : α → Bool} {run rest : List α}

theorem takeWhile_run (inside : ∀ a ∈ run, p a = true) (after : ∀ a ∈ rest.head?, p a = false) :
    (run ++ rest).takeWhile p = run := by
  rw [List.takeWhile_append_of_pos inside]
  cases rest with
  | nil => simp
  | cons a rest => simp [after a rfl]

theorem dropWhile_run (inside : ∀ a ∈ run, p a = true) (after : ∀ a ∈ rest.head?, p a = false) :
    (run ++ rest).dropWhile p = rest := by
  rw [List.dropWhile_append_of_pos inside]
  cases rest with
  | nil => rfl
  | cons a rest => simp [after a rfl]

end Run

section Trim

variable {s g : Text}

theorem trimLeft_blank_append (h : ∀ c ∈ g, isBlank c = true) : trimLeft (g ++ s) = trimLeft s := by
  unfold trimLeft
  rw [List.dropWhile_append_of_pos h]

theorem trimLeft_eq_self (h : ∀ c ∈ s.head?, isBlank c = false) : trimLeft s = s := by
  cases s with
  | nil => rfl
  | cons c s =>
    have hc := h c rfl
    unfold trimLeft
    rw [List.dropWhile_cons_of_neg (by simp [hc])]

theorem trimRight_append_blank (h : ∀ c ∈ g, isBlank c = true) :
    trimRight (s ++ g) = trimRight s := by
  unfold trimRight
  rw [List.reverse_append, List.dropWhile_append_of_pos]
  intro c hc
  exact h c (List.mem_reverse.1 hc)

theorem trimRight_eq_self (h : ∀ c ∈ s.getLast?, isBlank c = false) : trimRight s = s := by
  rw [← List.head?_reverse] at h
  have tight := trimLeft_eq_self h
  unfold trimLeft at tight
  unfold trimRight
  rw [tight, List.reverse_reverse]

theorem trim_eq_self (h : Tight s) : trim s = s := by
  rw [trim, trimLeft_eq_self h.1, trimRight_eq_self h.2]

theorem trim_cons {c : Char} (h : isBlank c = false) : ∃ t, trim (c :: s) = c :: t := by
  unfold trim
  rw [trimLeft_eq_self (by simpa using h)]
  unfold trimRight
  rw [List.reverse_cons, List.dropWhile_append]
  split
  · exact ⟨[], by simp [h]⟩
  · rw [List.reverse_append]
    exact ⟨_, rfl⟩

theorem trim_blank_append (h : ∀ c ∈ g, isBlank c = true) : trim (g ++ s) = trim s := by
  unfold trim
  rw [trimLeft_blank_append h]

theorem trim_padded {left right : Text} (hl : ∀ c ∈ left, isBlank c = true) (hs : Tight s)
    (hr : ∀ c ∈ right, isBlank c = true) : trim (left ++ (s ++ right)) = s := by
  rw [trim_blank_append hl]
  cases s with
  | nil =>
    unfold trim trimLeft
    rw [List.nil_append, ← List.append_nil right, List.dropWhile_append_of_pos hr]
    rfl
  | cons c s =>
    unfold trim
    rw [trimLeft_eq_self (by simpa using hs.1), trimRight_append_blank hr, trimRight_eq_self hs.2]

theorem exists_trim (s : Text) : ∃ left right, s = left ++ (trim s ++ right) ∧
    (∀ c ∈ left, isBlank c = true) ∧ ∀ c ∈ right, isBlank c = true := by
  have blank (t : Text) : ∀ c ∈ t.takeWhile isBlank, isBlank c = true :=
    List.all_eq_true.1 List.all_takeWhile
  refine ⟨s.takeWhile isBlank, ((trimLeft s).reverse.takeWhile isBlank).reverse, ?_, blank s,
    fun c hc => blank _ c (List.mem_reverse.1 hc)⟩
  rw [trim, trimRight, ← List.reverse_append, List.takeWhile_append_dropWhile,
    List.reverse_reverse, trimLeft, List.takeWhile_append_dropWhile]

theorem tight_of_solid {s : Text} (solid : ∀ c ∈ s, isBlank c = false) : Tight s :=
  ⟨fun c hc => solid c (List.mem_of_mem_head? hc),
    fun c hc => solid c (List.mem_of_mem_getLast? hc)⟩

theorem tight_trim (s : Text) : Tight (trim s) := by
  constructor
  · intro c hc
    cases e : trimLeft s with
    | nil => simp [trim, e, trimRight] at hc
    | cons d t =>
      have first := List.head?_dropWhile_not isBlank s
      unfold trimLeft at e
      rw [e] at first
      have first : isBlank d = false := by simpa using first
      obtain ⟨u, hu⟩ := trim_cons (s := t) first
      unfold trim at hu
      rw [trimLeft_eq_self (by simpa using first)] at hu
      unfold trim trimLeft at hc
      rw [e, hu] at hc
      cases hc
      exact first
  · intro c hc
    unfold trim trimRight at hc
    rw [List.getLast?_reverse] at hc
    have last := List.head?_dropWhile_not isBlank (trimLeft s).reverse
    rw [hc] at last
    simpa using last

end Trim

section Cut

variable {isMark : Char → Bool} {s : Text}

theorem cut_of_no_mark (h : ∀ c ∈ s, isMark c = false) : cut isMark s = [s] := by
  induction s with
  | nil => rfl
  | cons c s ih =>
    rw [List.forall_mem_cons] at h
    simp only [cut, ih h.2, h.1, Bool.false_eq_true, if_false]

theorem cut_append_mark {m : Char} {t : Text} (hm : isMark m = true) :
    cut isMark (s ++ m :: t) = cut isMark s ++ cut isMark t := by
  induction s with
  | nil =>
    cases e : cut isMark t with
    | nil => exact absurd e (cut_ne_nil isMark t)
    | cons first others => simp [cut, e, hm]
  | cons c s ih =>
    cases e : cut isMark s with
    | nil => exact absurd e (cut_ne_nil isMark s)
    | cons first others =>
      rw [e] at ih
      rw [List.cons_append, cut, ih, cut, e]
      simp only [List.cons_append]
      split <;> rfl

theorem exists_mem_cut {c : Char} (hc : c ∈ s) (solid : isMark c = false) :
    ∃ piece ∈ cut isMark s, c ∈ piece := by
  induction s with
  | nil => cases hc
  | cons d s ih =>
    cases e : cut isMark s with
    | nil => exact absurd e (cut_ne_nil isMark s)
    | cons first others =>
      rw [e] at ih
      rw [cut, e]
      rcases List.mem_cons.1 hc with rfl | hc
      · simp [solid]
      · obtain ⟨piece, hp, inside⟩ := ih hc
        by_cases mark : isMark d = true
        · exact ⟨piece, by simp [mark, List.mem_cons.1 hp], inside⟩
        · rcases List.mem_cons.1 hp with rfl | hp
          · exact ⟨d :: piece, by simp [mark], List.mem_cons_of_mem d inside⟩
          · exact ⟨piece, by simp [mark, hp], inside⟩

theorem not_mark_of_mem_cut {piece : Text} (h : piece ∈ cut isMark s) :
    ∀ c ∈ piece, isMark c = false := by
  induction s generalizing piece with
  | nil =>
    obtain rfl : piece = [] := by simpa [cut] using h
    exact List.forall_mem_nil _
  | cons d s ih =>
    cases e : cut isMark s with
    | nil => exact absurd e (cut_ne_nil isMark s)
    | cons first others =>
      rw [e] at ih
      simp only [cut, e] at h
      split at h
      · rcases List.mem_cons.1 h with rfl | h
        · exact List.forall_mem_nil _
        · exact ih h
      · next mark =>
        rw [Bool.not_eq_true] at mark
        rcases List.mem_cons.1 h with rfl | h
        · exact List.forall_mem_cons.2 ⟨mark, ih (List.mem_cons_self ..)⟩
        · exact ih (List.mem_cons_of_mem _ h)

end Cut

theorem not_mem_of_blank {mark : Char} {s : Text} (blank : ∀ c ∈ s, isBlank c = true)
    (solid : isBlank mark = false) : mark ∉ s := by
  intro h
  rw [blank mark h] at solid
  cases solid

theorem ne_mark {mark : Char} {s : Text} (h : mark ∉ s) : ∀ c ∈ s, (c == mark) = false := by
  intro c hc
  rw [beq_eq_false_iff_ne]
  rintro rfl
  exact h hc

section Words

variable {s t w gap : Text}

theorem words_append_blank {b : Char} (hb : isBlank b = true) :
    words (s ++ b :: t) = words s ++ words t := by
  unfold words
  rw [cut_append_mark hb, List.filter_append]

theorem words_gap_append (h : ∀ c ∈ gap, isBlank c = true) : words (gap ++ t) = words t := by
  induction gap with
  | nil => rfl
  | cons b gap ih =>
    obtain ⟨hb, h⟩ := List.forall_mem_cons.1 h
    rw [← List.nil_append (b :: gap ++ t), List.cons_append, words_append_blank hb, ih h]
    rfl

theorem words_of_solid (filled : w ≠ []) (solid : ∀ c ∈ w, isBlank c = false) :
    words w = [w] := by
  unfold words
  rw [cut_of_no_mark solid]
  simpa using filled

/-- Blanks between two texts only keep their words apart. -/
theorem words_append_gap (filled : gap ≠ []) (h : ∀ c ∈ gap, isBlank c = true) :
    words (s ++ (gap ++ t)) = words s ++ words t := by
  cases gap with
  | nil => exact absurd rfl filled
  | cons b gap =>
    obtain ⟨hb, h⟩ := List.forall_mem_cons.1 h
    rw [List.cons_append, words_append_blank hb, words_gap_append h]

theorem words_append_of_blank (h : ∀ c ∈ gap, isBlank c = true) :
    words (s ++ gap) = words s := by
  cases gap with
  | nil => rw [List.append_nil]
  | cons b gap =>
    have apart : words (s ++ (b :: gap ++ [])) = _ := words_append_gap (List.cons_ne_nil b gap) h
    rw [List.append_nil] at apart
    rw [apart]
    exact List.append_nil _

theorem words_ne_nil {c : Char} (hc : c ∈ s) (solid : isBlank c = false) : words s ≠ [] := by
  obtain ⟨w, hw, inside⟩ := exists_mem_cut hc solid
  have listed : w ∈ words s :=
    List.mem_filter.2 ⟨hw, by simpa using List.ne_nil_of_mem inside⟩
  exact List.ne_nil_of_mem listed

theorem solid_of_mem_words (h : w ∈ words s) : ∀ c ∈ w, isBlank c = false :=
  not_mark_of_mem_cut (List.mem_filter.1 h).1

end Words

section Lines

variable {l s : Text}

theorem lines_nil : lines [] = [] := rfl

theorem lines_append_newline (h : '\n' ∉ l) : lines (l ++ '\n' :: s) = dropReturn l :: lines s := by
  have cut_ : pieces '\n' (l ++ '\n' :: s) = l :: pieces '\n' s := by
    unfold pieces
    rw [cut_append_mark (by rfl), cut_of_no_mark (ne_mark h)]
    rfl
  unfold lines
  rw [cut_]
  cases e : pieces '\n' s with
  | nil => exact absurd e (cut_ne_nil _ s)
  | cons first others => simp

theorem lines_of_no_newline (h : '\n' ∉ l) (some_ : l ≠ []) : lines l = [l] := by
  have cut_ : pieces '\n' l = [l] := cut_of_no_mark (ne_mark h)
  unfold lines
  rw [cut_]
  simpa using some_

theorem dropReturn_eq_self (h : l.getLast? ≠ some '\r') : dropReturn l = l := if_neg h

/-- A line that stays as it is when it is printed and read. -/
structure IsLine (l : Text) : Prop where
  unbroken : '\n' ∉ l
  noReturn : l.getLast? ≠ some '\r'
  filled : l ≠ []

theorem lines_printed {ls : List Text} {text : Text} (h : ∀ l ∈ ls, IsLine l)
    (printed : text = ls.flatMap (· ++ ['\n']) ∨ text ++ ['\n'] = ls.flatMap (· ++ ['\n'])) :
    lines text = ls := by
  induction ls generalizing text with
  | nil =>
    rcases printed with rfl | printed
    · exact lines_nil
    · simp at printed
  | cons l ls ih =>
    obtain ⟨⟨hn, hr, hf⟩, hls⟩ := List.forall_mem_cons.1 h
    rw [List.flatMap_cons, List.append_assoc, List.singleton_append] at printed
    rcases printed with rfl | printed
    · rw [lines_append_newline hn, dropReturn_eq_self hr, ih hls (.inl rfl)]
    · cases ls with
      | nil =>
        have same : text = l := List.append_cancel_right printed
        rw [same]
        exact lines_of_no_newline hn hf
      | cons l' ls =>
        -- the line feed that is missing is that of a later line
        have later : (l' :: ls).flatMap (· ++ ['\n']) ≠ [] := by simp
        obtain ⟨t, c, ht⟩ := (List.eq_nil_or_concat _).resolve_left later
        rw [List.concat_eq_append] at ht
        rw [ht, ← List.cons_append, ← List.append_assoc] at printed
        obtain ⟨rfl, same⟩ := List.append_inj' printed rfl
        rw [lines_append_newline hn, dropReturn_eq_self hr]
        rw [← same] at ht
        rw [ih hls (.inr ht.symm)]

end Lines

end SqlReview.Text
