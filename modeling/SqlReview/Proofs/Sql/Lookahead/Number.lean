import SqlReview.Proofs.Sql.Lookahead.Quoted

/-!
How far a numeral is looked for: what comes after it can be exchanged for any text that begins with
a stop, since none is a digit, a fraction dot, the mark or sign of an exponent or the letter of a
long number.
-/
namespace SqlReview.Sql

section Numbers

variable {s u r t : Text} {l : Lexeme}

def takeOne (p : Char → Bool) : Text → Text × Text
  | [] => ([], [])
  | c :: s => if p c then ([c], s) else ([], c :: s)

theorem takeOne_cons (p : Char → Bool) (c : Char) (s : Text) :
    takeOne p (c :: s) = if p c then ([c], s) else ([], c :: s) := rfl

theorem takeDot_eq (s : Text) : takeDot s = takeOne (· == '.') s := by
  cases s with
  | nil => rfl
  | cons c s =>
    rw [takeOne_cons]
    unfold takeDot
    split
    · next e => cases e; rfl
    · next other =>
      have apart : ¬ (c == '.') = true := by
        rw [beq_iff_eq]
        rintro rfl
        exact other s rfl
      rw [if_neg apart]

theorem takeLong_eq (s : Text) : takeLong s = takeOne (· == 'L') s := by
  cases s with
  | nil => rfl
  | cons c s =>
    rw [takeOne_cons]
    unfold takeLong
    split
    · next e => cases e; rfl
    · next other =>
      have apart : ¬ (c == 'L') = true := by
        rw [beq_iff_eq]
        rintro rfl
        exact other s rfl
      rw [if_neg apart]

def isSign (c : Char) : Bool := c == '+' || c == '-'

theorem takeSign_eq (s : Text) : takeSign s = takeOne isSign s := by
  cases s with
  | nil => rfl
  | cons c s =>
    rw [takeOne_cons]
    unfold takeSign
    split
    · next e => cases e; rfl
    · next e => cases e; rfl
    · next plus minus =>
      have apart : ¬ isSign c = true := by
        rw [isSign, Bool.or_eq_true, beq_iff_eq, beq_iff_eq]
        rintro (rfl | rfl)
        · exact plus s rfl
        · exact minus s rfl
      rw [if_neg apart]

theorem takeOne_suffix (p : Char → Bool) (s : Text) : (takeOne p s).2 <:+ s := by
  cases s with
  | nil => exact List.suffix_refl _
  | cons c s =>
    rw [takeOne_cons]
    split
    · exact List.suffix_cons c s
    · exact List.suffix_refl _

theorem takeOne_of_head {p : Char → Bool} (none : ∀ c ∈ t.head?, p c = false) :
    takeOne p t = ([], t) := by
  cases t with
  | nil => rfl
  | cons c t => simp [takeOne, none c rfl]

theorem takeOne_exchange {p : Char → Bool} (none : ∀ c ∈ t.head?, p c = false)
    (h : (takeOne p (s ++ u)).2 = r ++ u) :
    takeOne p (s ++ t) = ((takeOne p (s ++ u)).1, r ++ t) := by
  cases s with
  | nil =>
    have kept : takeOne p u = ([], u) ∧ r = [] := by
      cases u with
      | nil => exact ⟨rfl, by simpa [takeOne] using h⟩
      | cons c u =>
        simp only [List.nil_append, takeOne] at h ⊢
        split at h
        · have := congrArg List.length h
          simp only [List.length_append, List.length_cons] at this
          omega
        · next other =>
          rw [if_neg other]
          exact ⟨rfl, List.append_left_eq_self.1 h.symm⟩
    rw [List.nil_append, List.nil_append, kept.1, kept.2]
    exact takeOne_of_head none
  | cons c s =>
    simp only [List.cons_append, takeOne] at h ⊢
    split at h
    · next known =>
      rw [if_pos known, if_pos known, List.append_cancel_right h]
    · next other =>
      have rest : (c :: s) ++ u = r ++ u := h
      rw [if_neg other, if_neg other, ← List.append_cancel_right rest]
      rfl

theorem takeDot_suffix (s : Text) : (takeDot s).2 <:+ s := by
  rw [takeDot_eq]
  exact takeOne_suffix _ s

theorem takeDot_exchange (stops : Stops t) (h : (takeDot (s ++ u)).2 = r ++ u) :
    takeDot (s ++ t) = ((takeDot (s ++ u)).1, r ++ t) := by
  simp only [takeDot_eq] at h ⊢
  exact takeOne_exchange (stops.not_head (by decide)) h

theorem takeLong_exchange (stops : Stops t) (h : (takeLong (s ++ u)).2 = r ++ u) :
    takeLong (s ++ t) = ((takeLong (s ++ u)).1, r ++ t) := by
  simp only [takeLong_eq] at h ⊢
  exact takeOne_exchange (stops.not_head (by decide)) h

theorem takeExponent_suffix (s : Text) : (takeExponent s).2 <:+ s := by
  cases s with
  | nil => exact List.suffix_refl _
  | cons c s =>
    simp only [takeExponent, takeSign_eq]
    split
    · split
      · exact ((List.dropWhile_suffix _).trans (takeOne_suffix _ s)).trans (List.suffix_cons c s)
      · exact List.suffix_refl _
    · exact List.suffix_refl _

theorem Stops.no_sign (stops : Stops t) : ∀ c ∈ t.head?, isSign c = false :=
  stops.not_head (by decide)

theorem Stops.no_digit (stops : Stops t) : ∀ c ∈ t.head?, Text.isAsciiDigit c = false :=
  stops.not_head (by decide)

theorem length_dropWhile_lt {p : Char → Bool} (h : u.head?.any p = true) :
    (u.dropWhile p).length < u.length := by
  cases u with
  | nil => cases h
  | cons c u =>
    have first : p c = true := h
    rw [List.dropWhile_cons_of_pos first]
    exact Nat.lt_succ_of_le (List.length_dropWhile_le p u)

theorem eq_nil_of_suffix {w : Text} (left : w <:+ u) (e : w = r ++ u) : r = [] ∧ w = u := by
  have long := left.length_le
  rw [e, List.length_append] at long
  obtain rfl : r = [] := List.eq_nil_of_length_eq_zero (by omega)
  exact ⟨rfl, e⟩

theorem takeExponent_whole (h : (takeExponent u).2 = u) : takeExponent u = ([], u) := by
  cases u with
  | nil => rfl
  | cons c u =>
    simp only [takeExponent] at h ⊢
    repeat' split
    · next mark digit =>
      rw [if_pos mark, if_pos digit] at h
      have rest : (takeSign u).2.dropWhile Text.isAsciiDigit = c :: u := h
      have short := List.length_dropWhile_le Text.isAsciiDigit (takeSign u).2
      have := takeSign_length u
      rw [rest, List.length_cons] at short
      omega
    · rfl
    · rfl

theorem takeExponent_of_head (mark : t.head? ≠ some 'e') (capital : t.head? ≠ some 'E') :
    takeExponent t = ([], t) := by
  cases t with
  | nil => rfl
  | cons c t =>
    have none : ¬ (c = 'e' ∨ c = 'E') := by
      rintro (rfl | rfl)
      · exact mark rfl
      · exact capital rfl
    rw [takeExponent, if_neg none]

theorem takeExponent_mark {c : Char} (mark : c = 'e' ∨ c = 'E') (s : Text) :
    takeExponent (c :: s) =
      if (takeOne isSign s).2.head?.any Text.isAsciiDigit then
        (c :: (takeOne isSign s).1 ++ (takeOne isSign s).2.takeWhile Text.isAsciiDigit,
          (takeOne isSign s).2.dropWhile Text.isAsciiDigit)
      else ([], c :: s) := by
  rw [takeExponent, if_pos mark, takeSign_eq]

/-- No exchange puts a digit after the sign of an exponent. -/
theorem no_digit_exchange (stops : Stops t)
    (none : (takeOne isSign (s ++ u)).2.head?.any Text.isAsciiDigit = false) :
    (takeOne isSign (s ++ t)).2.head?.any Text.isAsciiDigit = false := by
  have bare : t.head?.any Text.isAsciiDigit = false := by
    cases e : t.head? with
    | none => rfl
    | some c => exact stops.no_digit c e
  cases s with
  | nil => rwa [List.nil_append, takeOne_of_head stops.no_sign]
  | cons d s =>
    rw [List.cons_append, takeOne_cons] at none ⊢
    split at none
    · next sign =>
      rw [if_pos sign]
      cases s with
      | nil => exact bare
      | cons d' s => exact none
    · next plain =>
      rw [if_neg plain]
      exact none

theorem takeExponent_exchange (stops : Stops t) (h : (takeExponent (s ++ u)).2 = r ++ u) :
    takeExponent (s ++ t) = ((takeExponent (s ++ u)).1, r ++ t) := by
  cases s with
  | nil =>
    obtain ⟨rfl, whole⟩ := eq_nil_of_suffix (takeExponent_suffix u) h
    rw [List.nil_append, List.nil_append, takeExponent_whole whole]
    exact takeExponent_of_head (stops.head?_ne (by decide)) (stops.head?_ne (by decide))
  | cons c s =>
    by_cases mark : c = 'e' ∨ c = 'E'
    · rw [List.cons_append, takeExponent_mark mark] at h
      rw [List.cons_append, List.cons_append, takeExponent_mark mark, takeExponent_mark mark]
      by_cases digit : (takeOne isSign (s ++ u)).2.head?.any Text.isAsciiDigit = true
      · rw [if_pos digit] at h ⊢
        have rest : (takeOne isSign (s ++ u)).2.dropWhile Text.isAsciiDigit = r ++ u := h
        have shorter := length_dropWhile_lt digit
        rw [rest, List.length_append] at shorter
        obtain ⟨x, digits⟩ := exists_append_of_suffix (takeOne_suffix isSign (s ++ u)) (by omega)
        rw [digits] at rest digit shorter ⊢
        obtain ⟨taken, dropped⟩ := dropWhile_exchange stops.no_digit rest
        rw [takeOne_exchange stops.no_sign digits, taken, dropped, if_pos]
        cases x with
        | nil =>
          have none : r.length + u.length < u.length := shorter
          omega
        | cons d x => exact digit
      · rw [if_neg digit] at h ⊢
        have rest : (c :: s) ++ u = r ++ u := h
        rw [no_digit_exchange stops (Bool.eq_false_iff.2 digit), ← List.append_cancel_right rest]
        rfl
    · simp only [List.cons_append, takeExponent, if_neg mark] at h ⊢
      have rest : (c :: s) ++ u = r ++ u := h
      rw [← List.append_cancel_right rest]
      rfl

/-- What a numeral leaves begins no earlier than where its first digits end. -/
theorem scanNumber_length_le {rest : Text} (h : scanNumber s = .ok (l, rest)) :
    rest.length ≤ (s.dropWhile Text.isAsciiDigit).length := by
  have dot := takeDot_length (s.dropWhile Text.isAsciiDigit)
  have fraction := List.length_dropWhile_le Text.isAsciiDigit
    (takeDot (s.dropWhile Text.isAsciiDigit)).2
  simp only [scanNumber] at h
  repeat' split at h
  · cases h
    have := List.length_dropWhile_le Text.isHexDigit (s.dropWhile Text.isAsciiDigit).tail
    rw [List.length_tail] at this
    omega
  · cases h
    omega
  · cases h
    refine Nat.le_trans (takeLong_length _) (Nat.le_trans (takeExponent_length _) ?_)
    omega

theorem scanNumber_exchange (stops : Stops t) (h : scanNumber (s ++ u) = .ok (l, r ++ u)) :
    scanNumber (s ++ t) = .ok (l, r ++ t) := by
  have long := scanNumber_length_le h
  rw [List.length_append] at long
  obtain ⟨x, beyond⟩ := exists_append_of_suffix
    (List.dropWhile_suffix (l := s ++ u) Text.isAsciiDigit) (by omega)
  obtain ⟨whole, beyond'⟩ := dropWhile_exchange stops.no_digit beyond
  simp only [scanNumber, beyond] at h
  simp only [scanNumber, beyond', whole]
  by_cases hex : (s ++ u).takeWhile Text.isAsciiDigit = ['0'] ∧ (x ++ u).head? = some 'x'
  · rw [if_pos hex] at h
    obtain ⟨rfl, rest⟩ := Prod.mk.inj (Except.ok.inj h)
    cases x with
    | nil =>
      have short := List.length_dropWhile_le Text.isHexDigit u.tail
      obtain ⟨v, rfl⟩ := List.head?_eq_some_iff.1 hex.2
      rw [List.nil_append] at rest
      rw [List.tail_cons] at rest short
      rw [rest, List.length_append, List.length_cons] at short
      omega
    | cons d x =>
      obtain ⟨taken, dropped⟩ := dropWhile_exchange
        (stops.not_head (p := Text.isHexDigit) (by decide)) rest
      have hex' : (s ++ u).takeWhile Text.isAsciiDigit = ['0'] ∧
        ((d :: x) ++ t).head? = some 'x' := hex
      rw [if_pos hex']
      simp only [List.cons_append, List.tail_cons, taken, dropped]
  · rw [if_neg hex] at h
    have hex' : ¬ ((s ++ u).takeWhile Text.isAsciiDigit = ['0'] ∧ (x ++ t).head? = some 'x') := by
      rintro ⟨zero, marked⟩
      exact head?_exchange (stops.head?_ne (by decide)) (fun e => hex ⟨zero, e⟩) marked
    rw [if_neg hex']
    have dot := takeDot_suffix (x ++ u)
    have fraction := List.dropWhile_suffix (l := (takeDot (x ++ u)).2) Text.isAsciiDigit
    -- each part ends before the exchanged one, since the last does
    have longFraction :
        u.length ≤ ((takeDot (x ++ u)).2.dropWhile Text.isAsciiDigit).length := by
      split at h
      · have rest := congrArg List.length (Prod.mk.inj (Except.ok.inj h)).2
        rw [List.length_append] at rest
        omega
      · have rest := congrArg List.length (Prod.mk.inj (Except.ok.inj h)).2
        rw [List.length_append] at rest
        have := takeLong_length
          (takeExponent ((takeDot (x ++ u)).2.dropWhile Text.isAsciiDigit)).2
        have := takeExponent_length ((takeDot (x ++ u)).2.dropWhile Text.isAsciiDigit)
        omega
    obtain ⟨y, dotted⟩ := exists_append_of_suffix dot
      (Nat.le_trans longFraction fraction.length_le)
    obtain ⟨z, beyondDigits⟩ := exists_append_of_suffix (fraction.trans dot) longFraction
    have dotted' := takeDot_exchange stops dotted
    rw [dotted] at beyondDigits
    obtain ⟨digits, beyondDigits'⟩ := dropWhile_exchange stops.no_digit beyondDigits
    simp only [dotted, beyondDigits] at h
    simp only [dotted', digits, beyondDigits']
    split at h
    · next period =>
      obtain ⟨rfl, rest⟩ := Prod.mk.inj (Except.ok.inj h)
      rw [if_pos period, List.append_cancel_right rest]
    · next numeral =>
      obtain ⟨rfl, rest⟩ := Prod.mk.inj (Except.ok.inj h)
      have longExponent : u.length ≤ (takeExponent (z ++ u)).2.length := by
        have := congrArg List.length rest
        rw [List.length_append] at this
        have := takeLong_length (takeExponent (z ++ u)).2
        omega
      obtain ⟨w, exponent⟩ := exists_append_of_suffix (takeExponent_suffix _) longExponent
      have exponent' := takeExponent_exchange stops exponent
      rw [exponent] at rest
      have long' := takeLong_exchange stops rest
      rw [if_neg numeral, exponent', exponent, long']

end Numbers

end SqlReview.Sql
