import SqlReview.Proofs.Sql.Lookahead.Lexeme

/-!
What a lexeme leaves is the end of the text it was read from.
-/
namespace SqlReview.Sql

section Bodies

variable {s body rest : Text}

theorem quotedBody_suffix {quote : Char} {escapes : Bool}
    (h : quotedBody quote escapes s = some (body, rest)) : rest <:+ s := by
  fun_induction quotedBody quote escapes s generalizing body with
  | case1 => contradiction
  | case2 => cases h; exact List.suffix_cons _ _
  | case3 => contradiction
  | case4 s ih | case6 _ _ s _ _ ih =>
    obtain ⟨b, h⟩ := consBody_eq_some h
    exact ((ih h).trans (List.suffix_cons _ s)).trans (List.suffix_cons _ _)
  | case5 => cases h; exact List.suffix_cons _ _
  | case7 _ _ s _ _ ih =>
    obtain ⟨b, h⟩ := consBody_eq_some h
    exact (ih h).trans (List.suffix_cons _ _)

theorem tripledBody_suffix {quote : Char} (h : tripledBody quote s = some (body, rest)) :
    rest <:+ s := by
  fun_induction tripledBody quote s generalizing body with
  | case1 c d e s _ => cases h; exact ⟨[c, d, e], rfl⟩
  | case2 c d e s _ ih =>
    obtain ⟨b, h⟩ := consBody_eq_some h
    exact (ih h).trans (List.suffix_cons _ _)
  | case3 => contradiction

theorem commentBody_suffix {depth : Nat} {last : Char}
    (h : commentBody depth last s = some (body, rest)) : rest <:+ s := by
  induction s generalizing depth last body with
  | nil => simp [commentBody] at h
  | cons c s ih =>
    refine List.IsSuffix.trans ?_ (List.suffix_cons c s)
    simp only [commentBody] at h
    repeat' split at h
    all_goals first
      | (cases h; exact List.suffix_refl _)
      | (obtain ⟨b, h⟩ := consBody_eq_some h
         exact ih h)

theorem dollarBody_suffix {afterDollar : Bool}
    (h : dollarBody afterDollar s = some (body, rest)) : rest <:+ s := by
  induction s generalizing afterDollar body with
  | nil => cases afterDollar <;> simp [dollarBody] at h
  | cons c s ih =>
    refine List.IsSuffix.trans ?_ (List.suffix_cons c s)
    cases afterDollar <;> simp only [dollarBody] at h <;> split at h
    · exact ih h
    · obtain ⟨b, h⟩ := consBody_eq_some h
      exact ih h
    · cases h; exact List.suffix_refl _
    · obtain ⟨b, h⟩ := consBody_eq_some h
      obtain ⟨b, h⟩ := consBody_eq_some h
      exact ih h

theorem taggedBody_suffix {tag : Text} {expected : Option Text}
    (h : taggedBody tag expected s = some (body, rest)) : rest <:+ s := by
  fun_induction taggedBody tag expected s generalizing body with
  | case1 => contradiction
  | case2 c s ih | case5 t left c s ih =>
    obtain ⟨b, h⟩ := consBody_eq_some h
    exact (ih h).trans (List.suffix_cons _ _)
  | case3 => cases h; exact List.suffix_cons _ _
  | case4 c s _ ih =>
    obtain ⟨b, h⟩ := consBody_eq_some h
    exact (ih h).trans (List.suffix_cons _ _)

theorem escapedBody_suffix (h : escapedBody s = some (body, rest)) : rest <:+ s := by
  fun_induction escapedBody s generalizing body with
  | case1 => contradiction
  | case2 r ih =>
    obtain ⟨b, h⟩ := consBody_eq_some h
    exact ((ih h).trans (List.suffix_cons _ r)).trans (List.suffix_cons _ _)
  | case3 => cases h; exact List.suffix_cons _ _
  | case4 => contradiction
  | case5 r c r' e _ ih =>
    obtain ⟨b, h⟩ := consBody_eq_some h
    exact ((ih h).trans (escape?_suffix e)).trans (List.suffix_cons _ r)
  | case6 c r _ _ _ ih =>
    obtain ⟨b, h⟩ := consBody_eq_some h
    exact (ih h).trans (List.suffix_cons c r)

theorem unicodeBody_suffix (h : unicodeBody s = .ok (body, rest)) : rest <:+ s := by
  fun_induction unicodeBody s generalizing body with
  | case1 => contradiction
  | case2 r ih | case4 r ih =>
    obtain ⟨b, h⟩ := consRead_eq_ok h
    exact ((ih h).trans (List.suffix_cons _ r)).trans (List.suffix_cons _ _)
  | case3 => cases h; exact List.suffix_cons _ _
  | case5 | case7 => contradiction
  | case6 r c r' e _ ih =>
    obtain ⟨b, h⟩ := consRead_eq_ok h
    exact (((ih h).trans (hexDigits_suffix e)).trans (List.suffix_cons _ r)).trans
      (List.suffix_cons _ _)
  | case8 r _ _ c r' e _ ih =>
    obtain ⟨b, h⟩ := consRead_eq_ok h
    exact ((ih h).trans (hexDigits_suffix e)).trans (List.suffix_cons _ r)
  | case9 c r _ _ _ _ _ ih =>
    obtain ⟨b, h⟩ := consRead_eq_ok h
    exact (ih h).trans (List.suffix_cons c r)

end Bodies

section Lexemes

variable {s rest : Text} {l : Lexeme}

theorem scanWord_suffix {start : Text} (h : scanWord start s = .ok (l, rest)) : rest <:+ s := by
  cases h
  exact List.dropWhile_suffix _

theorem scanString_suffix {form : StringForm} {quote : Char} {escapes : Bool} {at_ : Text}
    (h : scanString form quote escapes at_ s = .ok (l, rest)) : rest <:+ s := by
  simp only [scanString] at h
  split at h
  · next e => cases h; exact quotedBody_suffix e
  · contradiction

theorem scanRaw_suffix {quote : Char} (h : scanRaw quote s = .ok (l, rest)) : rest <:+ s := by
  unfold scanRaw at h
  repeat' split at h
  · next e => cases h; exact (tripledBody_suffix e).trans ⟨[_, _, _], rfl⟩
  · contradiction
  · cases h; exact (List.suffix_cons _ _).trans (List.suffix_cons _ _)
  · exact (scanString_suffix h).trans (List.suffix_cons _ _)
  · cases h; exact List.nil_suffix
  · contradiction
  · contradiction

theorem takeLong_suffix (s : Text) : (takeLong s).2 <:+ s := by
  rw [takeLong_eq]
  exact takeOne_suffix _ s

theorem scanNumber_suffix (h : scanNumber s = .ok (l, rest)) : rest <:+ s := by
  have whole := List.dropWhile_suffix (l := s) Text.isAsciiDigit
  have fraction := List.dropWhile_suffix (l := (takeDot (s.dropWhile Text.isAsciiDigit)).2)
    Text.isAsciiDigit
  have dot := fraction.trans ((takeDot_suffix _).trans whole)
  simp only [scanNumber] at h
  repeat' split at h
  · cases h
    exact ((List.dropWhile_suffix _).trans (List.tail_suffix _)).trans whole
  · cases h
    exact dot
  · cases h
    exact ((takeLong_suffix _).trans (takeExponent_suffix _)).trans dot

theorem scanDollar_suffix (h : scanDollar s = .ok (l, rest)) : rest <:+ s := by
  simp only [scanDollar] at h
  repeat' split at h
  · next e => cases h; exact (dollarBody_suffix e).trans (List.tail_suffix s)
  · contradiction
  · next e =>
    cases h
    exact ((taggedBody_suffix e).trans (List.tail_suffix _)).trans (List.dropWhile_suffix _)
  · contradiction
  · cases h
    exact List.dropWhile_suffix _

theorem scanSign_suffix {c : Char} (h : scanSign c s = .ok (l, rest)) : rest <:+ s := by
  simp only [scanSign] at h
  split at h
  · cases h; exact List.drop_suffix _ _
  · cases h; exact List.suffix_refl _

theorem scanTaking_suffix {sign : Text} (h : scanTaking sign s = .ok (l, rest)) : rest <:+ s := by
  cases s with
  | nil => cases h; exact List.suffix_refl _
  | cons c s =>
    simp only [scanTaking] at h
    split at h
    · cases h; exact List.suffix_refl _
    · exact (scanWord_suffix h).trans (List.suffix_cons c s)

theorem scanAt_suffix (h : scanAt s = .ok (l, rest)) : rest <:+ s := by
  by_cases second : s.head? = some '@'
  · obtain ⟨s, rfl⟩ := List.head?_eq_some_iff.1 second
    rw [scanAt_at] at h
    exact (scanTaking_suffix h).trans (List.suffix_cons _ s)
  · rw [scanAt_other second] at h
    exact scanTaking_suffix h

theorem scanLettered_suffix {c : Char} (h : scanLettered c s = .ok (l, rest)) : rest <:+ s := by
  simp only [scanLettered] at h
  repeat' split at h
  all_goals first
    | contradiction
    | exact scanWord_suffix h
    | exact scanRaw_suffix h
    | exact (scanString_suffix h).trans (List.tail_suffix s)
    | (next e => cases h; exact (escapedBody_suffix e).trans (List.tail_suffix s))
    | (next e => cases h; exact (unicodeBody_suffix e).trans (List.drop_suffix 2 s))

theorem scanComment?_suffix {c : Char} (h : scanComment? c s = some (.ok (l, rest))) :
    rest <:+ s := by
  simp only [scanComment?] at h
  split at h
  · cases h
    exact ((List.tail_suffix _).trans (List.dropWhile_suffix _)).trans (List.tail_suffix s)
  · split at h
    · simp only [Option.some.injEq] at h
      split at h
      · next e => cases h; exact (commentBody_suffix e).trans (List.tail_suffix s)
      · contradiction
    · contradiction

theorem scanOther_suffix {c : Char} (h : scanOther c s = .ok (l, rest)) : rest <:+ s := by
  simp only [scanOther] at h
  repeat' split at h
  · exact scanTaking_suffix (scanHash_eq s ▸ h)
  · exact scanAt_suffix h
  · cases h; exact List.dropWhile_suffix _
  · exact scanDollar_suffix h
  · exact scanWord_suffix h
  · cases h; exact List.suffix_refl _
  · exact scanSign_suffix h

theorem scanQuotedWord_suffix {quote : Char} (h : scanQuotedWord quote s = .ok (l, rest)) :
    rest <:+ s := by
  simp only [scanQuotedWord] at h
  split at h
  · next e => cases h; exact quotedBody_suffix e
  · contradiction

theorem scan_suffix {c : Char} (h : scan c s = .ok (l, rest)) : rest <:+ c :: s := by
  simp only [scan] at h
  repeat' split at h
  all_goals first
    | exact scanNumber_suffix h
    | refine List.IsSuffix.trans ?_ (List.suffix_cons c s)
  · cases h; exact List.suffix_refl _
  · cases h; exact List.tail_suffix s
  · cases h; exact List.suffix_refl _
  · exact scanLettered_suffix h
  · exact scanString_suffix h
  · exact scanQuotedWord_suffix h
  · cases e : scanComment? c s with
    | none => rw [e] at h; exact scanOther_suffix h
    | some found => rw [e] at h; cases h; exact scanComment?_suffix e

end Lexemes

section Readings

variable {c : Char} {s rest : Text} {l : Lexeme} {ls : List Lexeme}

theorem lexemes_of_scan (h : scan c s = .ok (l, rest)) :
    lexemes (c :: s) = (lexemes rest).map (l :: ·) := by
  obtain ⟨raw, rfl⟩ : rest <:+ s :=
    List.suffix_of_suffix_length_le (scan_suffix h) (List.suffix_cons c s) (scan_length h)
  exact Reads.of_scan h

theorem lexemes_of_fault {fault : Fault} (h : scan c s = .error fault) :
    lexemes (c :: s) = .error fault := by
  rw [lexemes]
  split
  · next e =>
    rw [h] at e
    cases e
    rfl
  · next e =>
    rw [h] at e
    cases e

theorem exists_of_map_cons {read : Except Fault (List Lexeme)} (h : read.map (l :: ·) = .ok ls) :
    ∃ ms, read = .ok ms ∧ ls = l :: ms := by
  cases read with
  | error fault => cases h
  | ok ms => exact ⟨ms, rfl, (Except.ok.inj h).symm⟩

theorem exists_of_lexemes_cons (h : lexemes (c :: s) = .ok ls) :
    ∃ l rest ms, scan c s = .ok (l, rest) ∧ lexemes rest = .ok ms ∧ ls = l :: ms := by
  cases e : scan c s with
  | error fault =>
    rw [lexemes_of_fault e] at h
    cases h
  | ok found =>
    rw [lexemes_of_scan e] at h
    obtain ⟨ms, later, first⟩ := exists_of_map_cons h
    exact ⟨_, _, ms, rfl, later, first⟩

theorem exists_of_lexemes (h : lexemes s = .ok (l :: ls)) :
    ∃ c r rest, s = c :: r ∧ scan c r = .ok (l, rest) ∧ lexemes rest = .ok ls := by
  cases s with
  | nil =>
    rw [lexemes] at h
    cases h
  | cons c r =>
    obtain ⟨_, rest, _, e, later, ⟨⟩⟩ := exists_of_lexemes_cons h
    exact ⟨c, r, rest, rfl, e, later⟩

theorem eq_nil_of_lexemes (h : lexemes s = .ok []) : s = [] := by
  cases s with
  | nil => rfl
  | cons c r =>
    obtain ⟨_, _, _, _, _, ⟨⟩⟩ := exists_of_lexemes_cons h

def readsAs : Text → List Lexeme → Bool
  | s, [] => s.isEmpty
  | [], _ :: _ => false
  | c :: s, l :: ls =>
    match scan c s with
    | .ok (k, rest) => decide (k = l) && readsAs rest ls
    | .error _ => false

/-- A text with known lexemes is read by recursion on these. -/
theorem lexemes_of_readsAs (h : readsAs s ls = true) : lexemes s = .ok ls := by
  induction ls generalizing s with
  | nil =>
    rw [readsAs, List.isEmpty_iff] at h
    rw [h, lexemes]
  | cons l ls ih =>
    cases s with
    | nil => cases h
    | cons c s =>
      rw [readsAs] at h
      split at h
      · next k rest found =>
        rw [Bool.and_eq_true, decide_eq_true_eq] at h
        rw [lexemes_of_scan found, ih h.2, h.1]
        rfl
      · cases h

end Readings

end SqlReview.Sql
