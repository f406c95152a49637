import SqlReview.Proofs.Sql.Writing
import SqlReview.Query.Join

/-!
Parts in parentheses. What stands in them is passed over by everything that is looked for outside
of them, and a text that closes all it opens ends at the next parenthesis that closes.
-/
namespace SqlReview.Query

open Sql
open Pattern (Starts Clear charBefore inWord)

section Depth

variable {s t : Text} {d e : Nat}

def Unnested (s : Text) : Prop := '(' ∉ s ∧ ')' ∉ s

theorem Unnested.append {t : Text} (h : Unnested s) (h' : Unnested t) : Unnested (s ++ t) :=
  ⟨fun m => (List.mem_append.1 m).elim h.1 h'.1, fun m => (List.mem_append.1 m).elim h.2 h'.2⟩

theorem unnested_blank (h : ∀ c ∈ s, Text.isBlank c = true) : Unnested s :=
  ⟨Text.not_mem_of_blank h (by decide), Text.not_mem_of_blank h (by decide)⟩

/-- The depth after a text, unless the text closes more than is open. -/
def depthAfter : (depth : Nat) → Text → Option Nat
  | depth, [] => some depth
  | depth, c :: s =>
    if c = '(' then depthAfter (depth + 1) s
    else if c = ')' then
      match depth with
      | 0 => none
      | depth + 1 => depthAfter depth s
    else depthAfter depth s

/-- Every parenthesis is opened and closed in the text itself. -/
def Balanced (s : Text) : Prop := ∀ depth, depthAfter depth s = some depth

theorem depthAfter_cons_of_ne {c : Char} (no : c ≠ '(') (nc : c ≠ ')') :
    depthAfter d (c :: s) = depthAfter d s := by
  rw [depthAfter.eq_def]
  exact (if_neg no).trans (if_neg nc)

theorem depthAfter_append (d : Nat) (s t : Text) :
    depthAfter d (s ++ t) = (depthAfter d s).bind fun e => depthAfter e t := by
  fun_induction depthAfter d s with
  | case1 d => rfl
  | case2 d s ih => simpa [depthAfter] using ih
  | case3 s => simp [depthAfter]
  | case4 s d _ ih => simpa [depthAfter] using ih
  | case5 d c s opens closes ih => simpa [depthAfter, opens, closes] using ih

theorem Balanced.append (hs : Balanced s) (ht : Balanced t) : Balanced (s ++ t) := by
  intro d
  rw [depthAfter_append, hs d]
  exact ht d

theorem Balanced.group (hs : Balanced s) (ht : Balanced t) :
    Balanced ('(' :: (s ++ ')' :: t)) := by
  intro d
  change depthAfter (d + 1) (s ++ ')' :: t) = some d
  rw [depthAfter_append, hs (d + 1)]
  exact ht d

theorem Unnested.balanced (h : Unnested s) : Balanced s := by
  intro d
  induction s with
  | nil => rfl
  | cons c s ih =>
    obtain ⟨no, nc⟩ := h
    rw [List.mem_cons, not_or] at no nc
    rw [depthAfter_cons_of_ne (Ne.symm no.1) (Ne.symm nc.1), ih ⟨no.2, nc.2⟩]

theorem depthAfter_add (h : depthAfter d s = some e) (n : Nat) :
    depthAfter (d + n) s = some (e + n) := by
  fun_induction depthAfter d s with
  | case1 d => rw [Option.some.inj h]; rfl
  | case2 d s ih => simpa [depthAfter, Nat.add_right_comm] using ih h
  | case3 s => cases h
  | case4 s d _ ih => simpa [depthAfter, Nat.add_right_comm d 1] using ih h
  | case5 d c s opens closes ih => simpa [depthAfter, opens, closes] using ih h

theorem balanced_of_depthAfter (h : depthAfter 0 s = some 0) : Balanced s := by
  intro d
  simpa using depthAfter_add h d

theorem withinEnclosing_append (h : depthAfter d s = some e) (t : Text) :
    withinEnclosing d (s ++ t) = s ++ withinEnclosing e t := by
  fun_induction depthAfter d s with
  | case1 d => rw [Option.some.inj h]; rfl
  | case2 d s ih => simpa [withinEnclosing] using ih h
  | case3 s => cases h
  | case4 s d _ ih => simpa [withinEnclosing] using ih h
  | case5 d c s opens closes ih => simpa [withinEnclosing, opens, closes] using ih h

/-- Nothing follows, or the parenthesis that closes what stands before. -/
def AtEnd (s : Text) : Prop := s = [] ∨ ∃ t, s = ')' :: t

theorem Balanced.withinEnclosing_append (h : Balanced s) (closes : AtEnd t) :
    withinEnclosing 0 (s ++ t) = s := by
  rw [Query.withinEnclosing_append (h 0)]
  rcases closes with rfl | ⟨t, rfl⟩ <;> exact List.append_nil s

theorem balance_cons (c : Char) (s : Text) : balance (c :: s) = balance [c] + balance s := by
  have shift (n : Int) : s.foldl (fun n c =>
      if c = '(' then n + 1 else if c = ')' then n - 1 else n) n = n + balance s := by
    unfold balance
    induction s generalizing n with
    | nil => simp
    | cons c s ih =>
      rw [List.foldl_cons, List.foldl_cons, ih, ih (if c = '(' then 0 + 1 else _)]
      split
      · omega
      · split <;> omega
  exact shift (balance [c])

theorem balance_append (s t : Text) : balance (s ++ t) = balance s + balance t := by
  induction s with
  | nil => exact (Int.zero_add _).symm
  | cons c s ih => rw [List.cons_append, balance_cons, ih, balance_cons c s, Int.add_assoc]

theorem balance_of_depthAfter (h : depthAfter d s = some e) : balance s = e - d := by
  fun_induction depthAfter d s with
  | case1 d =>
    rw [Option.some.inj h]
    exact (Int.sub_self _).symm
  | case2 d s ih =>
    have opened : balance ['('] = 1 := rfl
    rw [balance_cons, ih h, opened]
    omega
  | case3 s => cases h
  | case4 s d _ ih =>
    have closed : balance [')'] = -1 := rfl
    rw [balance_cons, ih h, closed]
    omega
  | case5 d c s opens closes ih =>
    have flat : balance [c] = 0 := by simp [balance, opens, closes]
    rw [balance_cons, ih h, flat]
    omega

theorem Balanced.balance (h : Balanced s) : balance s = 0 := balance_of_depthAfter (h 0)

theorem Balanced.balance_further {seen : Text} (h : Balanced s)
    (here : Query.balance seen.reverse = 0) : Query.balance (s.reverse ++ seen).reverse = 0 := by
  rw [List.reverse_append, List.reverse_reverse, balance_append, here, h.balance]
  rfl

theorem unnested_nil : Unnested [] := ⟨List.not_mem_nil, List.not_mem_nil⟩

theorem Unnested.of_append_left (h : Unnested (s ++ t)) : Unnested s :=
  ⟨fun m => h.1 (List.mem_append_left t m), fun m => h.2 (List.mem_append_left t m)⟩

theorem Unnested.of_append_right (h : Unnested (s ++ t)) : Unnested t :=
  ⟨fun m => h.1 (List.mem_append_right s m), fun m => h.2 (List.mem_append_right s m)⟩

theorem unnested_marks (h : ∀ c ∈ s, c ≠ '(' ∧ c ≠ ')') : Unnested s :=
  ⟨fun m => (h _ m).1 rfl, fun m => (h _ m).2 rfl⟩

end Depth

section Level

variable {p : Pattern} {w s : Text}

def Level (p : Pattern) : Prop := ∀ before s n, p before s = some n → Unnested (s.take n)

theorem unnested_word (h : ∀ c ∈ s, Text.isWord c = true) : Unnested s := by
  constructor
  · intro m
    exact absurd (h _ m) (by decide)
  · intro m
    exact absurd (h _ m) (by decide)

theorem unnested_take_append (m n : Nat) (first : Unnested (s.take m))
    (second : Unnested ((s.drop m).take n)) : Unnested (s.take (m + n)) := by
  rw [List.take_add]
  exact first.append second

theorem unnested_of_spells (hw : Pattern.Capitals w) (h : Pattern.spells w s = true) :
    Unnested (s.take w.length) := unnested_word (Pattern.isWord_of_spells hw.2 h).1

theorem unnested_blankCount (s : Text) : Unnested (s.take (Pattern.blankCount s)) :=
  unnested_blank (Pattern.isBlank_take_blankCount s)

theorem level_word (hw : Pattern.Capitals w) : Level (.word w) := by
  intro before s n h
  simp only [Pattern.word, Option.ite_none_right_eq_some, Bool.and_eq_true] at h
  rw [← Option.some.inj h.2]
  exact unnested_of_spells hw h.1.1.2

theorem level_phrase {second : Text} (hw : Pattern.Capitals w) (hs : Pattern.Capitals second) :
    Level (.phrase w second) := by
  intro before s n h
  simp only [Pattern.phrase, Option.ite_none_right_eq_some, Bool.and_eq_true] at h
  obtain ⟨⟨first, _⟩, ⟨⟨_, spelled⟩, _⟩, hn⟩ := h
  rw [← Option.some.inj hn]
  apply unnested_take_append
  · apply unnested_take_append
    · exact unnested_of_spells hw first
    · exact unnested_blankCount _
  · exact unnested_of_spells hs spelled

theorem level_oneOf {ps : List Pattern} (h : ∀ p ∈ ps, Level p) : Level (.oneOf ps) := by
  intro before s n hn
  obtain ⟨p, hp, holds⟩ := List.exists_of_findSome?_eq_some hn
  exact h p hp before s n holds

end Level

section Passing

variable {p : Pattern} {ws : List Text} {s t seen rest : Text}

def outside (o : Occurrence) : Bool := balance o.before = 0

theorem find?_inside (level : Level p) {d skip : Nat} (h : depthAfter d s = some 0)
    (deep : balance seen.reverse = d + 1) (covered : Unnested ((s ++ ')' :: rest).take skip)) :
    (p.occurrencesFrom seen skip (s ++ ')' :: rest)).find? outside =
      (p.occurrencesFrom (s.reverse ++ seen) 0 (')' :: rest)).find? outside := by
  induction s generalizing d seen skip with
  | nil =>
    cases skip with
    | zero => rfl
    | succ skip => exact absurd List.mem_cons_self covered.2
  | cons c s ih =>
    have closing : depthAfter d ([c] ++ s) = some 0 := h
    rw [depthAfter_append] at closing
    obtain ⟨e, here, later⟩ := Option.bind_eq_some_iff.1 closing
    have deeper : balance (c :: seen).reverse = e + 1 := by
      rw [List.reverse_cons, balance_append, deep, balance_of_depthAfter here]
      omega
    have whole : (c :: s).reverse ++ seen = s.reverse ++ c :: seen := by
      rw [List.reverse_cons, List.append_assoc, List.singleton_append]
    have next {n : Nat} (covered : Unnested ((c :: s ++ ')' :: rest).take (n + 1))) :
        (p.occurrencesFrom (c :: seen) n (s ++ ')' :: rest)).find? outside =
          (p.occurrencesFrom (s.reverse ++ c :: seen) 0 (')' :: rest)).find? outside := by
      rw [List.cons_append, List.take_succ_cons] at covered
      have rest_ : Unnested ([c] ++ (s ++ ')' :: rest).take n) := covered
      exact ih later deeper rest_.of_append_right
    rw [whole]
    cases skip with
    | succ n => exact next covered
    | zero =>
      rw [List.cons_append, Pattern.occurrencesFrom]
      split
      · rename_i n found
        have hidden : outside ⟨seen.reverse, (c :: (s ++ ')' :: rest)).take (n + 1),
            (c :: (s ++ ')' :: rest)).drop (n + 1)⟩ = false := by
          unfold outside
          rw [deep]
          exact decide_eq_false (by omega)
        rw [List.find?_cons_of_neg (by rw [hidden]; exact Bool.false_ne_true)]
        exact next (level _ _ _ found)
      · exact ih later deeper unnested_nil

theorem find?_group (starts : Starts p ws) (level : Level p) (h : Balanced s)
    (here : balance seen.reverse = 0) :
    (p.occurrencesFrom seen 0 ('(' :: (s ++ ')' :: rest))).find? outside =
      (p.occurrencesFrom (')' :: (s.reverse ++ '(' :: seen)) 0 rest).find? outside := by
  have opening : Clear p seen.head? ['('] (s ++ ')' :: rest) :=
    starts.clear_of_marks (List.forall_mem_singleton.2 (by decide))
  have closing : Clear p (s.reverse ++ '(' :: seen).head? [')'] rest :=
    starts.clear_of_marks (List.forall_mem_singleton.2 (by decide))
  have deep : balance ('(' :: seen).reverse = (0 : Nat) + 1 := by
    rw [List.reverse_cons, balance_append, here]
    rfl
  have first := Pattern.occurrencesFrom_clear opening
  have last := Pattern.occurrencesFrom_clear closing
  have inside : (p.occurrencesFrom ('(' :: seen) 0 (s ++ ')' :: rest)).find? outside = _ :=
    find?_inside level (h 0) deep unnested_nil
  rw [List.singleton_append] at first last
  rw [first]
  exact inside.trans (congrArg (List.find? outside) last)

/-- Words that are none of some keywords, and marks other than parentheses. -/
structure Neutral (ws : List Text) (s : Text) : Prop where
  unnested : Unnested s
  clear {p : Pattern} {before : Option Char} {rest : Text} (starts : Starts p ws)
    (after : inWord rest.head? = false) : Clear p before s rest

/-- What tells nothing to the outside: words that are none of some keywords, and whole groups in
parentheses. -/
structure Sealed (ws : List Text) (s : Text) : Prop where
  balanced : Balanced s
  pass {p : Pattern} {seen rest : Text} (starts : Starts p ws) (level : Level p)
    (here : balance seen.reverse = 0) (after : inWord rest.head? = false) :
    (p.occurrencesFrom seen 0 (s ++ rest)).find? outside =
      (p.occurrencesFrom (s.reverse ++ seen) 0 rest).find? outside

theorem inWord_head_append (first : inWord s.head? = false) (after : inWord rest.head? = false) :
    inWord (s ++ rest).head? = false := by
  cases s with
  | nil => exact after
  | cons c s => exact first

namespace Neutral

theorem nil : Neutral ws [] := ⟨unnested_nil, fun _ _ => trivial⟩

theorem append (hs : Neutral ws s) (ht : Neutral ws t) (apart : inWord t.head? = false) :
    Neutral ws (s ++ t) where
  unnested := hs.unnested.append ht.unnested
  clear starts after :=
    (hs.clear starts (inWord_head_append apart after)).append (ht.clear starts after)

theorem marks_append (marks : ∀ c ∈ s, Text.isWord c = false) (flat : Unnested s)
    (ht : Neutral ws t) : Neutral ws (s ++ t) where
  unnested := flat.append ht.unnested
  clear starts after := (starts.clear_of_marks marks).append (ht.clear starts after)

theorem run (word : ∀ c ∈ s, Text.isWord c = true)
    (other : ∀ w ∈ ws, Pattern.isSpelling w s = false) : Neutral ws s :=
  ⟨unnested_word word, fun starts after => starts.clear_of_run word other after⟩

end Neutral

namespace Sealed

theorem of_neutral (h : Neutral ws s) : Sealed ws s where
  balanced := h.unnested.balanced
  pass starts _ _ after := by rw [Pattern.occurrencesFrom_clear (h.clear starts after)]

theorem mono {more : List Text} (h : Sealed more s) (sub : ws ⊆ more) : Sealed ws s :=
  ⟨h.balanced, fun starts => h.pass (starts.mono sub)⟩

theorem append (hs : Sealed ws s) (ht : Sealed ws t) (apart : inWord t.head? = false) :
    Sealed ws (s ++ t) where
  balanced := hs.balanced.append ht.balanced
  pass {p seen rest} starts level here after := by
    have further : balance (s.reverse ++ seen).reverse = 0 := hs.balanced.balance_further here
    rw [List.append_assoc, hs.pass starts level here (inWord_head_append apart after),
      ht.pass starts level further after, List.reverse_append, List.append_assoc]

theorem marks_append (marks : ∀ c ∈ s, Text.isWord c = false) (flat : Unnested s)
    (ht : Sealed ws t) : Sealed ws (s ++ t) where
  balanced := flat.balanced.append ht.balanced
  pass {p seen rest} starts level here after := by
    have further : balance (s.reverse ++ seen).reverse = 0 := flat.balanced.balance_further here
    rw [List.append_assoc, Pattern.occurrencesFrom_clear (starts.clear_of_marks marks),
      ht.pass starts level further after, List.reverse_append, List.append_assoc]

theorem group_append (h : Balanced s) (ht : Sealed ws t) : Sealed ws ('(' :: (s ++ ')' :: t)) where
  balanced := h.group ht.balanced
  pass {p seen rest} starts level here after := by
    have group : ('(' :: (s ++ [')'])).reverse ++ seen = ')' :: (s.reverse ++ '(' :: seen) := by
      simp
    have further : balance (')' :: (s.reverse ++ '(' :: seen)).reverse = 0 :=
      group ▸ (h.group unnested_nil.balanced).balance_further here
    have whole : ('(' :: (s ++ ')' :: t)).reverse ++ seen =
        t.reverse ++ ')' :: (s.reverse ++ '(' :: seen) := by
      simp
    rw [whole, List.cons_append, List.append_assoc, List.cons_append,
      find?_group starts level h here, ht.pass starts level further after]

end Sealed

section Outside

variable {gap : Text}

theorem not_isWord_of_blank (blank : ∀ c ∈ s, Text.isBlank c = true) :
    ∀ c ∈ s, Text.isWord c = false := fun c hc => Text.not_isWord_of_isBlank (blank c hc)

theorem inWord_head_of_marks (marks : ∀ c ∈ s, Text.isWord c = false) :
    inWord s.head? = false := by
  cases s with
  | nil => rfl
  | cons c s => exact marks c List.mem_cons_self

theorem Sealed.blank_append (blank : ∀ c ∈ gap, Text.isBlank c = true) (h : Sealed ws s) :
    Sealed ws (gap ++ s) :=
  h.marks_append (not_isWord_of_blank blank) (unnested_blank blank)

theorem Neutral.blank_append (blank : ∀ c ∈ gap, Text.isBlank c = true) (h : Neutral ws s) :
    Neutral ws (gap ++ s) :=
  h.marks_append (not_isWord_of_blank blank) (unnested_blank blank)

theorem Neutral.of_blank (blank : ∀ c ∈ s, Text.isBlank c = true) : Neutral ws s :=
  ⟨unnested_blank blank, fun starts _ => starts.clear_of_marks (not_isWord_of_blank blank)⟩

theorem Neutral.keyword {w : Text} (known : w ∈ reservedWords) (k : Keyword w)
    (sub : ws ⊆ reservedWords) (other : w ∉ ws) : Neutral ws k.text :=
  .run (isWord_of_plain (k.plain known)) fun _ hw' =>
    k.not_isSpelling known (sub hw') fun same => other (same ▸ hw')

theorem Sealed.firstOutside?_append (h : Sealed ws s) (starts : Starts p ws) (level : Level p)
    (after : inWord rest.head? = false) :
    firstOutside? p (s ++ rest) = (p.occurrencesFrom s.reverse 0 rest).find? outside := by
  have flat : balance ([] : Text).reverse = 0 := rfl
  have pass := h.pass starts level flat after
  rw [List.append_nil] at pass
  exact pass

theorem Sealed.firstOutside?_none (h : Sealed ws s) (starts : Starts p ws) (level : Level p)
    (blank : ∀ c ∈ gap, Text.isBlank c = true) : firstOutside? p (s ++ gap) = none := by
  have marks := not_isWord_of_blank blank
  have clear : Clear p s.reverse.head? gap [] := starts.clear_of_marks marks
  have none := Pattern.occurrencesFrom_clear clear
  rw [List.append_nil] at none
  rw [h.firstOutside?_append starts level (inWord_head_of_marks marks), none]
  rfl

/-- Where the pattern holds after a sealed part and a gap, it is found first. -/
theorem Sealed.firstOutside?_some (h : Sealed ws s) (starts : Starts p ws) (level : Level p)
    (filled : gap ≠ []) (blank : ∀ c ∈ gap, Text.isBlank c = true)
    (holds : ∀ before, inWord before = false → (p before t).isSome) :
    ∃ before n, inWord before = false ∧ p before t = some n ∧
      firstOutside? p (s ++ (gap ++ t)) = some ⟨s ++ gap, t.take n, t.drop n⟩ := by
  have clear : Clear p s.reverse.head? gap t := starts.clear_of_marks (not_isWord_of_blank blank)
  have alone : inWord (gap.reverse ++ s.reverse).head? = false := by
    apply Pattern.inWord_head_blank
    · exact fun empty => filled (List.reverse_eq_nil_iff.1 empty)
    · exact fun c hc => blank c (List.mem_reverse.1 hc)
  have flat : balance (s ++ gap) = 0 :=
    (h.balanced.append (unnested_blank blank).balanced).balance
  obtain ⟨n, hn⟩ := Option.isSome_iff_exists.1 (holds _ alone)
  obtain ⟨pos, _, run, _⟩ := starts _ _ _ hn
  obtain ⟨m, rfl⟩ := Nat.exists_eq_succ_of_ne_zero (Nat.ne_of_gt pos)
  refine ⟨_, _, alone, hn, ?_⟩
  rw [h.firstOutside?_append starts level (Pattern.inWord_head_blank filled blank t),
    Pattern.occurrencesFrom_clear clear]
  cases t with
  | nil => exact absurd rfl run
  | cons c t =>
    rw [Pattern.occurrencesFrom, hn]
    simp only
    rw [List.find?_cons_of_pos, List.reverse_append, List.reverse_reverse, List.reverse_reverse]
    unfold outside
    rw [List.reverse_append, List.reverse_reverse, List.reverse_reverse, flat]
    rfl

end Outside

end Passing

end SqlReview.Query
