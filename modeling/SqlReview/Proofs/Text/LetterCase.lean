import Mathlib.Data.List.Forall2
import SqlReview.Proofs.Text.Pattern

/-!
Texts that differ in the case of ASCII letters only. No class of characters and no pattern tells
them apart, so what is found in two of them, and what they are cut into, stands at the same places.
-/
namespace SqlReview.Text

def Alike (s t : Text) : Prop := lower s = lower t

section Letter

variable {c : Char}

theorem toLower_eq_self (h : ¬ (65 ≤ c.toNat ∧ c.toNat ≤ 90)) : c.toLower = c := by
  rw [← Char.toNat_inj, toNat_toLower, if_neg h]

theorem toLower_toLower (c : Char) : c.toLower.toLower = c.toLower := by
  apply toLower_eq_self
  rw [toNat_toLower]
  split <;> omega

theorem toUpper_toLower (c : Char) : c.toLower.toUpper = c.toUpper := by
  rw [← Char.toNat_inj, toNat_toUpper, toNat_toUpper, toNat_toLower]
  repeat' split
  all_goals omega

theorem toLower_toUpper (c : Char) : c.toUpper.toLower = c.toLower := by
  rw [← Char.toNat_inj, toNat_toLower, toNat_toLower, toNat_toUpper]
  repeat' split
  all_goals omega

/-- What holds of all small and capital letters or of none does not tell their case. -/
theorem eq_of_letters {α : Type} {f : Char → α} {a : α} (c : Char)
    (letters : ∀ d, isAsciiLetter d = true → f d = a) : f c.toLower = f c := by
  by_cases capital : 65 ≤ c.toNat ∧ c.toNat ≤ 90
  · have small : isAsciiLetter c.toLower = true := by
      rw [isAsciiLetter_iff, toNat_toLower, if_pos capital]
      omega
    rw [letters c (isAsciiLetter_iff.2 (.inr capital)), letters _ small]
  · rw [toLower_eq_self capital]

theorem isPlain_of_isAsciiLetter (h : isAsciiLetter c = true) : isPlain c = true := by
  unfold isPlain
  rw [h]
  rfl

theorem isWord_toLower (c : Char) : isWord c.toLower = isWord c :=
  eq_of_letters c fun _ h => isWord_of_isPlain (isPlain_of_isAsciiLetter h)

theorem isBlank_toLower (c : Char) : isBlank c.toLower = isBlank c :=
  eq_of_letters c fun _ h => not_isBlank_of_isPlain (isPlain_of_isAsciiLetter h)

theorem toLower_eq_iff {mark : Char} (h : isAsciiLetter mark = false) :
    c.toLower = mark ↔ c = mark := by
  have other (d : Char) (letter : isAsciiLetter d = true) : (d == mark) = false := by
    rw [beq_eq_false_iff_ne]
    rintro rfl
    rw [h] at letter
    cases letter
  have same : (c.toLower == mark) = (c == mark) := eq_of_letters c other
  rw [← beq_iff_eq, same, beq_iff_eq]

theorem utf8Size_toLower (c : Char) : c.toLower.utf8Size = c.utf8Size := by
  apply eq_of_letters c
  intro d h
  rw [isAsciiLetter_iff] at h
  have small : d.val ≤ 0x7F := by
    rw [UInt32.le_iff_toNat_le]
    change d.toNat ≤ 127
    omega
  exact if_pos small

end Letter

section Alike

variable {s t s' t' : Text} {c d : Char}

theorem Alike.refl (s : Text) : Alike s s := rfl

theorem alike_iff_upper : Alike s t ↔ upper s = upper t := by
  have capitals (s : Text) : upper s = upper (lower s) := by
    unfold upper lower
    rw [List.map_map]
    exact List.map_congr_left fun c _ => (toUpper_toLower c).symm
  have small (s : Text) : lower s = lower (upper s) := by
    unfold upper lower
    rw [List.map_map]
    exact List.map_congr_left fun c _ => (toLower_toUpper c).symm
  constructor
  · intro h
    rw [capitals s, capitals t, h]
  · intro h
    rw [Alike, small s, small t, h]

theorem Alike.nil_left (h : Alike [] t) : t = [] := List.map_eq_nil_iff.1 h.symm

theorem Alike.cons_left (h : Alike (c :: s) t) :
    ∃ d t', t = d :: t' ∧ c.toLower = d.toLower ∧ Alike s t' := by
  obtain ⟨d, t', rfl, first, later⟩ := List.map_eq_cons_iff.1 h.symm
  exact ⟨d, t', rfl, first.symm, later.symm⟩

theorem Alike.cons (first : c.toLower = d.toLower) (later : Alike s t) :
    Alike (c :: s) (d :: t) := by
  unfold Alike lower at *
  rw [List.map_cons, List.map_cons, first, later]

theorem Alike.append (h : Alike s t) (h' : Alike s' t') : Alike (s ++ s') (t ++ t') := by
  unfold Alike lower at *
  rw [List.map_append, List.map_append, h, h']

theorem Alike.reverse (h : Alike s t) : Alike s.reverse t.reverse := by
  unfold Alike lower at *
  rw [List.map_reverse, List.map_reverse, h]

theorem Alike.take (h : Alike s t) (n : Nat) : Alike (s.take n) (t.take n) := by
  unfold Alike lower at *
  rw [List.map_take, List.map_take, h]

theorem Alike.drop (h : Alike s t) (n : Nat) : Alike (s.drop n) (t.drop n) := by
  unfold Alike lower at *
  rw [List.map_drop, List.map_drop, h]

theorem Alike.head? (h : Alike s t) : s.head?.map Char.toLower = t.head?.map Char.toLower := by
  have same := congrArg List.head? h
  rwa [lower, lower, List.head?_map, List.head?_map] at same

theorem Alike.isEmpty (h : Alike s t) : s.isEmpty = t.isEmpty := by
  cases s with
  | nil => rw [h.nil_left]
  | cons c s =>
    obtain ⟨d, t', rfl, _⟩ := h.cons_left
    rfl

theorem Alike.takeWhile {p : Char → Bool} (caseless : ∀ c, p c.toLower = p c) (h : Alike s t) :
    Alike (s.takeWhile p) (t.takeWhile p) := by
  have same : ∀ s : Text, lower (s.takeWhile p) = (lower s).takeWhile p := by
    intro s
    rw [lower, lower, List.takeWhile_map]
    congr 2
    funext c
    exact (caseless c).symm
  unfold Alike at *
  rw [same, same, h]

theorem Alike.dropWhile {p : Char → Bool} (caseless : ∀ c, p c.toLower = p c) (h : Alike s t) :
    Alike (s.dropWhile p) (t.dropWhile p) := by
  have same : ∀ s : Text, lower (s.dropWhile p) = (lower s).dropWhile p := by
    intro s
    rw [lower, lower, List.dropWhile_map]
    congr 2
    funext c
    exact (caseless c).symm
  unfold Alike at *
  rw [same, same, h]

end Alike

section Places

/-- Parts of two texts with alike texts before and after them. -/
def SamePlace (s s' part part' : Text) : Prop :=
  ∃ before after before' after', s = before ++ (part ++ after) ∧
    s' = before' ++ (part' ++ after') ∧ Alike before before' ∧ Alike part part' ∧
    Alike after after'

variable {s s' part part' : Text}

theorem SamePlace.refl (h : Alike s s') : SamePlace s s' s s' :=
  ⟨[], [], [], [], (List.append_nil s).symm, (List.append_nil s').symm, .refl _, h, .refl _⟩

theorem SamePlace.alike (h : SamePlace s s' part part') : Alike part part' := by
  obtain ⟨_, _, _, _, _, _, _, h, _⟩ := h
  exact h

theorem SamePlace.trans {inner inner' : Text} (h : SamePlace s s' part part')
    (h' : SamePlace part part' inner inner') : SamePlace s s' inner inner' := by
  obtain ⟨before, after, before', after', rfl, rfl, hb, _, ha⟩ := h
  obtain ⟨left, right, left', right', rfl, rfl, hl, hi, hr⟩ := h'
  refine ⟨before ++ left, right ++ after, before' ++ left', right' ++ after', ?_, ?_,
    hb.append hl, hi, hr.append ha⟩
  · simp only [List.append_assoc]
  · simp only [List.append_assoc]

structure ByteRange where
  start : Nat
  stop : Nat

def byteSize (s : Text) : Nat := s.foldr (fun c size => c.utf8Size + size) 0

/-- The part of the text that takes the bytes of the range. -/
def ByteRange.Holds (r : ByteRange) (s part : Text) : Prop :=
  ∃ before after, s = before ++ (part ++ after) ∧ byteSize before = r.start ∧
    byteSize before + byteSize part = r.stop

theorem Alike.byteSize (h : Alike s s') : byteSize s = byteSize s' := by
  have same : ∀ s : Text, Text.byteSize s = Text.byteSize (lower s) := by
    intro s
    simp only [Text.byteSize, lower, List.foldr_map, utf8Size_toLower]
  rw [same s, same s', h]

theorem SamePlace.exists_range (h : SamePlace s s' part part') :
    ∃ r : ByteRange, r.Holds s part ∧ r.Holds s' part' := by
  obtain ⟨before, after, before', after', e, e', hb, hp, _⟩ := h
  refine ⟨⟨Text.byteSize before, Text.byteSize before + Text.byteSize part⟩, ⟨before, after, e, rfl,
    rfl⟩, before', after', e', hb.byteSize.symm, ?_⟩
  rw [hb.byteSize, hp.byteSize]

end Places

section Parts

variable {s s' : Text}

theorem samePlace_trimLeft (h : Alike s s') : SamePlace s s' (trimLeft s) (trimLeft s') := by
  refine ⟨s.takeWhile isBlank, [], s'.takeWhile isBlank, [], ?_, ?_,
    h.takeWhile isBlank_toLower, h.dropWhile isBlank_toLower, .refl _⟩
  · rw [List.append_nil, trimLeft, List.takeWhile_append_dropWhile]
  · rw [List.append_nil, trimLeft, List.takeWhile_append_dropWhile]

theorem samePlace_trimRight (h : Alike s s') : SamePlace s s' (trimRight s) (trimRight s') := by
  have whole (s : Text) : s = trimRight s ++ (s.reverse.takeWhile isBlank).reverse := by
    rw [trimRight, ← List.reverse_append, List.takeWhile_append_dropWhile, List.reverse_reverse]
  exact ⟨[], _, [], _, whole s, whole s', .refl _, (h.reverse.dropWhile isBlank_toLower).reverse,
    (h.reverse.takeWhile isBlank_toLower).reverse⟩

theorem samePlace_trim (h : Alike s s') : SamePlace s s' (trim s) (trim s') :=
  (samePlace_trimLeft h).trans (samePlace_trimRight (samePlace_trimLeft h).alike)

/-- The pieces between marks, the first of which has begun before the text at hand. -/
theorem samePlace_cut_from {isMark : Char → Bool} (caseless : ∀ c, isMark c.toLower = isMark c)
    {seen seen' begun begun' first first' : Text} {others others' : List Text}
    (hs : Alike seen seen') (hb : Alike begun begun') (h : Alike s s')
    (e : cut isMark s = first :: others) (e' : cut isMark s' = first' :: others') :
    List.Forall₂ (SamePlace (seen ++ (begun ++ s)) (seen' ++ (begun' ++ s')))
      ((begun ++ first) :: others) ((begun' ++ first') :: others') := by
  induction s generalizing seen seen' begun begun' first first' others others' s' with
  | nil =>
    obtain rfl := h.nil_left
    obtain ⟨rfl, rfl⟩ := List.cons.inj e
    obtain ⟨rfl, rfl⟩ := List.cons.inj e'
    have piece : SamePlace (seen ++ (begun ++ [])) (seen' ++ (begun' ++ [])) (begun ++ [])
        (begun' ++ []) :=
      ⟨seen, [], seen', [], by simp, by simp, hs, hb.append (.refl _), .refl _⟩
    exact .cons piece .nil
  | cons c s ih =>
    obtain ⟨d, t, rfl, same, ht⟩ := h.cons_left
    obtain ⟨later, more, es⟩ := List.exists_cons_of_ne_nil (cut_ne_nil isMark s)
    obtain ⟨later', more', et⟩ := List.exists_cons_of_ne_nil (cut_ne_nil isMark t)
    have marks : isMark c = isMark d := by rw [← caseless c, same, caseless d]
    simp only [cut, es, et, ← marks] at e e'
    split at e
    · next mark =>
      rw [if_pos mark] at e'
      obtain ⟨rfl, rfl⟩ := List.cons.inj e
      obtain ⟨rfl, rfl⟩ := List.cons.inj e'
      have piece : SamePlace (seen ++ (begun ++ c :: s)) (seen' ++ (begun' ++ d :: t)) (begun ++ [])
          (begun' ++ []) :=
        ⟨seen, c :: s, seen', d :: t, by simp, by simp, hs, hb.append (.refl _), ht.cons same⟩
      have seenMark : Alike (seen ++ (begun ++ [c])) (seen' ++ (begun' ++ [d])) :=
        hs.append (hb.append (.cons same (.refl [])))
      have rest := ih seenMark (.refl []) ht es et
      refine .cons piece ?_
      simpa using rest
    · next noMark =>
      rw [if_neg noMark] at e'
      obtain ⟨rfl, rfl⟩ := List.cons.inj e
      obtain ⟨rfl, rfl⟩ := List.cons.inj e'
      have longer : Alike (begun ++ [c]) (begun' ++ [d]) := hb.append (.cons same (.refl []))
      have rest := ih hs longer ht es et
      simpa using rest

theorem samePlace_cut (isMark : Char → Bool) (caseless : ∀ c, isMark c.toLower = isMark c)
    (h : Alike s s') : List.Forall₂ (SamePlace s s') (cut isMark s) (cut isMark s') := by
  obtain ⟨first, others, e⟩ := List.exists_cons_of_ne_nil (cut_ne_nil isMark s)
  obtain ⟨first', others', e'⟩ := List.exists_cons_of_ne_nil (cut_ne_nil isMark s')
  rw [e, e']
  exact samePlace_cut_from caseless (.refl []) (.refl []) h e e'

end Parts

end SqlReview.Text

namespace SqlReview

open Text (Alike SamePlace)

structure Occurrence.Alike (o o' : Occurrence) : Prop where
  before : Text.Alike o.before o'.before
  covered : Text.Alike o.covered o'.covered
  after : Text.Alike o.after o'.after

namespace Pattern

/-- The pattern does not tell the case of a letter. -/
def Caseless (p : Pattern) : Prop :=
  ∀ before s, p (before.map Char.toLower) (Text.lower s) = p before s

section Patterns

variable {before : Option Char} {s : Text}

theorem inWord_map (before : Option Char) : inWord (before.map Char.toLower) = inWord before := by
  cases before with
  | none => rfl
  | some c => exact Text.isWord_toLower c

theorem writes_toLower (letter c : Char) : writes letter c.toLower = writes letter c := by
  have far (n : Nat) (h : 128 ≤ n) : (c.toLower.toNat == n) = (c.toNat == n) := by
    rw [Bool.eq_iff_iff, beq_iff_eq, beq_iff_eq, Text.toNat_toLower]
    split <;> omega
  unfold writes
  rw [Text.toUpper_toLower, far 383 (by decide), far 8490 (by decide)]

theorem spells_lower (w s : Text) : spells w (Text.lower s) = spells w s := by
  induction w generalizing s with
  | nil => rfl
  | cons letter w ih =>
    cases s with
    | nil => rfl
    | cons c s =>
      have later := ih s
      unfold Text.lower at later ⊢
      rw [List.map_cons, spells, spells, writes_toLower, later]

theorem drop_lower (n : Nat) (s : Text) : (Text.lower s).drop n = Text.lower (s.drop n) :=
  List.map_drop.symm

theorem inWord_head_lower (s : Text) : inWord (Text.lower s).head? = inWord s.head? := by
  rw [Text.lower, List.head?_map, inWord_map]

theorem blankCount_lower (s : Text) : blankCount (Text.lower s) = blankCount s := by
  rw [blankCount, Text.lower, List.takeWhile_map, List.length_map, blankCount]
  congr 2
  funext c
  exact Text.isBlank_toLower c

theorem caseless_word (w : Text) : Caseless (word w) := by
  intro before s
  simp only [word, inWord_map, spells_lower, drop_lower, inWord_head_lower]

theorem caseless_phrase (first second : Text) : Caseless (phrase first second) := by
  intro before s
  simp only [phrase, inWord_map, spells_lower, drop_lower, inWord_head_lower, blankCount_lower]

theorem caseless_oneOf {ps : List Pattern} (h : ∀ p ∈ ps, Caseless p) : Caseless (oneOf ps) := by
  intro before s
  induction ps with
  | nil => rfl
  | cons p ps ih =>
    obtain ⟨first, h⟩ := List.forall_mem_cons.1 h
    have later := ih h
    unfold oneOf at later ⊢
    rw [List.findSome?_cons, List.findSome?_cons, first before s, later]

end Patterns

section Found

variable {p : Pattern} {before before' : Option Char} {s s' : Text}

theorem Caseless.eq (h : Caseless p) (hb : before.map Char.toLower = before'.map Char.toLower)
    (hs : Alike s s') : p before s = p before' s' := by
  rw [← h before s, ← h before' s', hb, hs]

theorem occurrencesFrom_alike (h : Caseless p) {seen seen' : Text} (skip : Nat)
    (hseen : Alike seen seen') (hs : Alike s s') : List.Forall₂ Occurrence.Alike
      (p.occurrencesFrom seen skip s) (p.occurrencesFrom seen' skip s') := by
  induction s generalizing seen seen' skip s' with
  | nil =>
    obtain rfl := hs.nil_left
    exact .nil
  | cons c s ih =>
    obtain ⟨d, t, rfl, same, ht⟩ := hs.cons_left
    have later := hseen.cons same
    cases skip with
    | succ skip => exact ih skip later ht
    | zero =>
      have here : p seen'.head? (d :: t) = p seen.head? (c :: s) := (h.eq hseen.head? hs).symm
      rw [occurrencesFrom, occurrencesFrom, here]
      split
      · next n _ =>
        exact .cons ⟨hseen.reverse, hs.take (n + 1), hs.drop (n + 1)⟩ (ih n later ht)
      · exact ih 0 later ht

theorem occurrences_alike (h : Caseless p) (hs : Alike s s') :
    List.Forall₂ Occurrence.Alike (p.occurrences s) (p.occurrences s') :=
  occurrencesFrom_alike h 0 (.refl []) hs

theorem count_alike (h : Caseless p) (hs : Alike s s') : p.count s = p.count s' :=
  (occurrences_alike h hs).length_eq

theorem first?_alike (h : Caseless p) (hs : Alike s s') :
    Option.Rel Occurrence.Alike (p.first? s) (p.first? s') := by
  have all := occurrences_alike h hs
  unfold first?
  generalize p.occurrences s = found, p.occurrences s' = found' at all ⊢
  cases all with
  | nil => exact .none
  | cons first _ => exact .some first

theorem occursIn_alike (h : Caseless p) (hs : Alike s s') : p.occursIn s = p.occursIn s' := by
  have first := first?_alike h hs
  unfold occursIn
  generalize p.first? s = found, p.first? s' = found' at first ⊢
  cases first <;> rfl

/-- The pieces that are still to come, the first of which has begun after what is seen. No piece
has begun while characters are skipped. -/
theorem samePlace_splitFrom (h : Caseless p) {seen seen' piece piece' : Text} {skip : Nat}
    (fresh : skip = 0 ∨ piece = []) (hb : before.map Char.toLower = before'.map Char.toLower)
    (hseen : Alike seen seen') (hpiece : Alike piece piece') (hs : Alike s s') :
    List.Forall₂ (SamePlace (seen ++ (piece.reverse ++ s)) (seen' ++ (piece'.reverse ++ s')))
      (p.splitFrom before piece skip s) (p.splitFrom before' piece' skip s') := by
  induction s generalizing before before' seen seen' piece piece' skip s' with
  | nil =>
    obtain rfl := hs.nil_left
    exact .cons ⟨seen, [], seen', [], rfl, rfl, hseen, hpiece.reverse, .refl _⟩ .nil
  | cons c s ih =>
    obtain ⟨d, t, rfl, same, ht⟩ := hs.cons_left
    have char : (some c).map Char.toLower = (some d).map Char.toLower := congrArg some same
    have one : Alike [c] [d] := .cons same (.refl [])
    cases skip with
    | succ skip =>
      obtain rfl := fresh.resolve_left (Nat.succ_ne_zero skip)
      obtain rfl := hpiece.nil_left
      have fresh : skip = 0 ∨ ([] : Text) = [] := .inr rfl
      have later := ih fresh char (hseen.append one) (.refl []) ht
      simpa [splitFrom] using later
    | zero =>
      have here : p before' (d :: t) = p before (c :: s) := (h.eq hb (ht.cons same)).symm
      rw [splitFrom, splitFrom, here]
      split
      · next n _ =>
        have first : SamePlace (seen ++ (piece.reverse ++ c :: s))
            (seen' ++ (piece'.reverse ++ d :: t)) piece.reverse piece'.reverse :=
          ⟨seen, c :: s, seen', d :: t, rfl, rfl, hseen, hpiece.reverse, ht.cons same⟩
        have fresh : n = 0 ∨ ([] : Text) = [] := .inr rfl
        have later := ih fresh char (hseen.append (hpiece.reverse.append one)) (.refl []) ht
        exact .cons first (by simpa using later)
      · have fresh : 0 = 0 ∨ c :: piece = [] := .inl rfl
        have later := ih fresh char hseen (hpiece.cons same) ht
        simpa using later

theorem samePlace_split (h : Caseless p) (hs : Alike s s') :
    List.Forall₂ (SamePlace s s') (p.split s) (p.split s') :=
  samePlace_splitFrom h (.inl rfl) rfl (.refl []) (.refl []) hs

end Found

end Pattern

end SqlReview
