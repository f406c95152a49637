import SqlReview.Proofs.Sql.Lookahead.Lexeme
import SqlReview.Proofs.Text.Terminator

/-!
What a semicolon at the end does not mend. It closes no quote and no comment and is no digit of an
escape, so where no lexeme can be read there is none with the semicolon either.
-/
namespace SqlReview.Sql

open Text (terminated)

section Unclosed

variable {s : Text}

theorem consBody_eq_none_iff {c : Char} {found : Option (Text × Text)} :
    consBody c found = none ↔ found = none := Option.map_eq_none_iff

theorem quotedBody_unclosed {quote : Char} {escapes : Bool} (other : quote ≠ ';')
    (h : quotedBody quote escapes s = none) :
    quotedBody quote escapes (terminated s) = none := by
  fun_induction quotedBody quote escapes s with
  | case1 => exact if_neg other.symm
  | case2 => cases h
  | case3 c plain => simp [terminated, quotedBody, consBody, plain, other.symm]
  | case4 s ih =>
    have ih := ih (consBody_eq_none_iff.1 h)
    unfold terminated at ih ⊢
    simp [quotedBody, consBody, ih]
  | case5 => cases h
  | case6 c d s plain escape ih =>
    have ih := ih (consBody_eq_none_iff.1 h)
    unfold terminated at ih ⊢
    simp only [List.cons_append, quotedBody, plain, escape, if_false, if_true]
    exact consBody_eq_none_iff.2 ih
  | case7 c d s plain escape ih =>
    have ih := ih (consBody_eq_none_iff.1 h)
    unfold terminated at ih ⊢
    simp only [List.cons_append, quotedBody, plain, escape, if_false]
    exact consBody_eq_none_iff.2 ih

theorem tripledBody_unclosed {quote : Char} (other : quote ≠ ';')
    (h : tripledBody quote s = none) : tripledBody quote (terminated s) = none := by
  fun_induction tripledBody quote s with
  | case1 => cases h
  | case2 c d e s apart ih =>
    have ih := ih (consBody_eq_none_iff.1 h)
    unfold terminated at ih ⊢
    rw [List.cons_append, List.cons_append, List.cons_append, tripledBody, if_neg apart]
    exact consBody_eq_none_iff.2 ih
  | case3 s short =>
    rcases s with _ | ⟨c, _ | ⟨d, _ | ⟨e, s⟩⟩⟩
    · rfl
    · rfl
    · simp [terminated, tripledBody, consBody, other.symm]
    · exact absurd rfl (short c d e s)

theorem commentBody_unclosed {depth : Nat} {last : Char} (h : commentBody depth last s = none) :
    commentBody depth last (terminated s) = none := by
  unfold terminated
  induction s generalizing depth last with
  | nil => simp [commentBody, consBody]
  | cons c s ih =>
    rw [commentBody] at h
    rw [List.cons_append, commentBody]
    repeat' split at h
    · next opens => rw [if_pos opens, ih (consBody_eq_none_iff.1 h)]; rfl
    · cases h
    · next opens closes deep =>
      rw [if_neg opens, if_pos closes, if_neg deep, ih (consBody_eq_none_iff.1 h)]; rfl
    · next opens closes => rw [if_neg opens, if_neg closes, ih (consBody_eq_none_iff.1 h)]; rfl

theorem dollarBody_unclosed {afterDollar : Bool} (h : dollarBody afterDollar s = none) :
    dollarBody afterDollar (terminated s) = none := by
  unfold terminated
  induction s generalizing afterDollar with
  | nil => cases afterDollar <;> rfl
  | cons c s ih =>
    cases afterDollar with
    | false =>
      rw [dollarBody] at h
      rw [List.cons_append, dollarBody]
      split at h
      · next dollar => rw [if_pos dollar, ih h]
      · next plain => rw [if_neg plain, ih (consBody_eq_none_iff.1 h)]; rfl
    | true =>
      rw [dollarBody] at h
      rw [List.cons_append, dollarBody]
      split at h
      · cases h
      · next plain =>
        rw [if_neg plain, ih (consBody_eq_none_iff.1 (consBody_eq_none_iff.1 h))]
        rfl

theorem taggedBody_unclosed {tag : Text} {expected : Option Text}
    (h : taggedBody tag expected s = none) : taggedBody tag expected (terminated s) = none := by
  fun_induction taggedBody tag expected s with
  | case1 expected =>
    rcases expected with _ | _ | ⟨t, left⟩ <;> simp [terminated, taggedBody, consBody]
  | case2 c s ih | case5 t left c s ih =>
    rw [Text.terminated_cons, taggedBody, ih (consBody_eq_none_iff.1 h)]
    rfl
  | case3 => cases h
  | case4 c s plain ih =>
    rw [Text.terminated_cons, taggedBody, if_neg plain, ih (consBody_eq_none_iff.1 h)]
    rfl

theorem takeWhile_take_terminated {p : Char → Bool} (mark : p ';' = false) (n : Nat) (s : Text) :
    ((terminated s).take n).takeWhile p = (s.take n).takeWhile p := by
  unfold terminated
  induction n generalizing s with
  | zero => rfl
  | succ n ih =>
    cases s with
    | nil => simp [mark]
    | cons c s =>
      rw [List.cons_append, List.take_succ_cons, List.take_succ_cons, List.takeWhile_cons,
        List.takeWhile_cons, ih]

theorem mem_unsigned {c : Char} (h : c ∈ s) (other : c ≠ '+') : c ∈ unsigned s := by
  unfold unsigned
  split
  · exact (List.mem_cons.1 h).resolve_left other
  · exact h

theorem hexEscape?_unclosed {width : Nat} (h : hexEscape? width s = none) :
    hexEscape? width (terminated s) = none := by
  by_cases long : width ≤ s.length
  · have taken : (terminated s).take width = s.take width := List.take_append_of_le_length long
    simp only [hexEscape?, taken, Text.drop_terminated long] at h ⊢
    split at h
    · next digits =>
      rw [if_pos digits]
      cases code : codePoint? (Text.valueIn 16 (unsigned (s.take width))) with
      | none => rfl
      | some c =>
        rw [code, Option.bind_some] at h
        rw [Option.bind_some]
        split at h
        · next zero => rw [if_pos zero]
        · cases h
    · next digits => rw [if_neg digits]
  · -- the semicolon is among the characters that would have to be digits
    unfold hexEscape?
    rw [if_neg]
    rintro ⟨full, digits⟩
    have inside : ';' ∈ (terminated s).take width := by
      rw [List.take_of_length_le]
      · exact List.mem_append_right s (List.mem_singleton_self _)
      · rw [terminated, List.length_append, List.length_singleton]
        omega
    exact absurd (List.all_eq_true.1 digits _ (mem_unsigned inside (by decide))) (by decide)

theorem escape?_unclosed (h : escape? s = none) :
    escape? (terminated s) = none ∨ ∃ c, escape? (terminated s) = some (c, []) := by
  cases s with
  | nil => exact .inr ⟨';', rfl⟩
  | cons c s =>
    left
    rw [Text.terminated_cons]
    simp only [escape?] at h ⊢
    cases control : controlOf? c with
    | some d =>
      rw [control] at h
      cases h
    | none =>
      rw [control] at h
      simp only at h ⊢
      split at h
      · next short => rw [if_pos short, hexEscape?_unclosed h]
      next short =>
      rw [if_neg short]
      split at h
      · next long => rw [if_pos long, hexEscape?_unclosed h]
      next long =>
      rw [if_neg long]
      split at h
      · next hex =>
        rw [if_pos hex, takeWhile_take_terminated (by decide)]
        split at h
        · cases h
        · next digits =>
          rw [if_neg digits]
          exact Option.map_eq_none_iff.2 (Option.map_eq_none_iff.1 h)
      next hex =>
      rw [if_neg hex]
      split at h
      · next octal =>
        rw [if_pos octal, takeWhile_take_terminated (by decide)]
        exact Option.map_eq_none_iff.2 (Option.map_eq_none_iff.1 h)
      next octal =>
      rw [if_neg octal]
      split at h
      · next zero => rw [if_pos zero]
      · cases h

theorem stops_terminator : Stops [';'] := ⟨';', by decide, rfl⟩

theorem escapedBody_nil : escapedBody [] = none := by rw [escapedBody]

theorem escapedBody_of_escape?_eq_none (h : escape? s = none) : escapedBody ('\\' :: s) = none := by
  rw [escapedBody]
  split
  · rfl
  · next found =>
    rw [h] at found
    cases found

theorem escapedBody_unclosed (h : escapedBody s = none) : escapedBody (terminated s) = none := by
  fun_induction escapedBody s with
  | case1 =>
    rw [terminated, List.nil_append, escapedBody_plain (by decide) (by decide)]
    exact consBody_eq_none_iff.2 escapedBody_nil
  | case2 r ih =>
    have ih := ih (consBody_eq_none_iff.1 h)
    unfold terminated at ih ⊢
    simp only [List.cons_append, escapedBody, ih]
    rfl
  | case3 => cases h
  | case4 r escaped =>
    rcases escape?_unclosed escaped with none | ⟨c, found⟩
    · exact escapedBody_of_escape?_eq_none none
    · have read : escapedBody (terminated ('\\' :: r)) = _ := escapedBody_escape found
      rw [read]
      exact consBody_eq_none_iff.2 escapedBody_nil
  | case5 r c r' escaped _ ih =>
    have found : escape? (terminated r) = some (c, terminated r') := by
      apply escape?_exchange stops_terminator
      rw [List.append_nil, List.append_nil]
      exact escaped
    have read : escapedBody (terminated ('\\' :: r)) = _ := escapedBody_escape found
    rw [read, ih (consBody_eq_none_iff.1 h)]
    rfl
  | case6 c r _ quote backslash ih =>
    have read : escapedBody (terminated (c :: r)) = _ := escapedBody_plain quote backslash
    rw [read]
    exact consBody_eq_none_iff.2 (ih (consBody_eq_none_iff.1 h))

end Unclosed

def Fails {α : Type} (found : Except Fault α) : Prop := ∃ fault, found = .error fault

section Fails

variable {s : Text} {c : Char}

theorem fails_ok {α : Type} {a : α} : ¬ Fails (.ok a) := fun ⟨_, h⟩ => nomatch h

theorem fails_error {α : Type} (fault : Fault) : Fails (.error fault : Except Fault α) :=
  ⟨fault, rfl⟩

theorem fails_consRead_iff {found : Except Fault (Text × Text)} :
    Fails (consRead c found) ↔ Fails found := by
  cases found with
  | error fault => exact iff_of_true (fails_error fault) (fails_error fault)
  | ok => exact iff_of_false fails_ok fails_ok

theorem hexDigits_fails {count value : Nat} (h : Fails (hexDigits count value s)) :
    Fails (hexDigits count value (terminated s)) := by
  unfold terminated
  induction count generalizing value s with
  | zero =>
    rw [hexDigits] at h ⊢
    cases code : codePoint? value with
    | some c =>
      rw [code] at h
      exact absurd h fails_ok
    | none => exact fails_error _
  | succ count ih =>
    cases s with
    | nil => exact fails_error _
    | cons d s =>
      rw [hexDigits] at h
      rw [List.cons_append, hexDigits]
      split at h
      · next hex =>
        rw [if_pos hex]
        exact ih h
      · next other =>
        rw [if_neg other]
        exact fails_error _

theorem unicodeBody_long_fails (h : Fails (hexDigits 6 0 s)) :
    Fails (unicodeBody ('\\' :: '+' :: s)) := by
  rw [unicodeBody]
  split
  · exact fails_error _
  · next found =>
    rw [found] at h
    exact absurd h fails_ok

theorem unicodeBody_short_fails (doubled : s.head? ≠ some '\\') (long : s.head? ≠ some '+')
    (h : Fails (hexDigits 4 0 s)) : Fails (unicodeBody ('\\' :: s)) := by
  rw [unicodeBody]
  · split
    · exact fails_error _
    · next found =>
      rw [found] at h
      exact absurd h fails_ok
  · rintro _ rfl
    exact doubled rfl
  · rintro _ rfl
    exact long rfl

theorem head?_terminated_iff (other : c ≠ ';') : (terminated s).head? = some c ↔ s.head? = some c := by
  cases s with
  | nil =>
    constructor
    · rintro ⟨⟩
      exact absurd rfl other
    · rintro ⟨⟩
  | cons d s => exact Iff.rfl

theorem head?_terminated_ne (other : c ≠ ';') (h : ∀ w, s = c :: w → False) :
    (terminated s).head? ≠ some c := by
  rw [Ne, head?_terminated_iff other]
  intro head
  obtain ⟨w, e⟩ := List.head?_eq_some_iff.1 head
  exact h w e

theorem hexDigits_terminated {count value : Nat} {rest : Text}
    (h : hexDigits count value s = .ok (c, rest)) :
    hexDigits count value (terminated s) = .ok (c, terminated rest) := by
  apply hexDigits_exchange
  rw [List.append_nil, List.append_nil]
  exact h

theorem unicodeBody_fails (h : Fails (unicodeBody s)) : Fails (unicodeBody (terminated s)) := by
  fun_induction unicodeBody s with
  | case1 =>
    rw [terminated, List.nil_append, unicodeBody_plain (by decide) (by decide), fails_consRead_iff]
    exact ⟨_, by rw [unicodeBody]⟩
  | case2 r ih | case4 r ih =>
    have ih := ih (fails_consRead_iff.1 h)
    unfold terminated at ih ⊢
    simp only [List.cons_append, unicodeBody]
    exact fails_consRead_iff.2 ih
  | case3 => exact absurd h fails_ok
  | case5 r fault digits =>
    exact unicodeBody_long_fails (hexDigits_fails ⟨fault, digits⟩)
  | case6 r c r' digits _ ih =>
    have read : unicodeBody (terminated ('\\' :: '+' :: r)) = _ :=
      unicodeBody_long (hexDigits_terminated digits)
    rw [read, fails_consRead_iff]
    exact ih (fails_consRead_iff.1 h)
  | case7 r doubled plus fault digits =>
    exact unicodeBody_short_fails (head?_terminated_ne (by decide) doubled)
      (head?_terminated_ne (by decide) plus) (hexDigits_fails ⟨fault, digits⟩)
  | case8 r doubled plus c r' digits _ ih =>
    have read : unicodeBody (terminated ('\\' :: r)) = _ :=
      unicodeBody_short (head?_terminated_ne (by decide) doubled)
        (head?_terminated_ne (by decide) plus) (hexDigits_terminated digits)
    rw [read, fails_consRead_iff]
    exact ih (fails_consRead_iff.1 h)
  | case9 c r _ quote _ _ backslash ih =>
    have read : unicodeBody (terminated (c :: r)) = _ := unicodeBody_plain quote backslash
    rw [read, fails_consRead_iff]
    exact ih (fails_consRead_iff.1 h)

theorem scanWord_not_fails (start s : Text) : ¬ Fails (scanWord start s) := fails_ok

theorem scanString_fails_iff {form : StringForm} {quote : Char} {escapes : Bool} {at_ : Text} :
    Fails (scanString form quote escapes at_ s) ↔ quotedBody quote escapes s = none := by
  unfold scanString
  cases quotedBody quote escapes s with
  | none => exact iff_of_true (fails_error _) rfl
  | some => exact iff_of_false fails_ok (Option.some_ne_none _)

theorem scanString_fails {form : StringForm} {quote : Char} {escapes : Bool} {at_ : Text}
    (other : quote ≠ ';') (h : Fails (scanString form quote escapes at_ s)) (at' : Text) :
    Fails (scanString form quote escapes at' (terminated s)) :=
  scanString_fails_iff.2 (quotedBody_unclosed other (scanString_fails_iff.1 h))

theorem scanRaw_fails {quote : Char} (other : quote ≠ ';') (h : Fails (scanRaw quote s)) :
    Fails (scanRaw quote (terminated s)) := by
  rcases s with _ | ⟨a, _ | ⟨b, _ | ⟨c, s⟩⟩⟩
  · exact fails_error _
  · simp only [terminated, List.singleton_append, scanRaw, if_neg other.symm]
    exact fails_error _
  · rw [scanRaw] at h
    split at h
    · exact absurd h fails_ok
    · next apart =>
      have unclosed : quotedBody quote false [b, ';'] = none := by
        simp [quotedBody, consBody, apart, other.symm]
      simp only [terminated, List.cons_append, List.nil_append, scanRaw, apart, false_and,
        and_false, if_false]
      exact scanString_fails_iff.2 unclosed
  · rw [scanRaw] at h
    rw [Text.terminated_cons, Text.terminated_cons, Text.terminated_cons, scanRaw]
    split at h
    · next triple =>
      rw [if_pos triple]
      cases body : tripledBody quote s with
      | none =>
        rw [tripledBody_unclosed other body]
        exact fails_error _
      | some =>
        rw [body] at h
        exact absurd h fails_ok
    next triple =>
    rw [if_neg triple]
    split at h
    · exact absurd h fails_ok
    · next single =>
      rw [if_neg single]
      exact scanString_fails other h _

theorem scanNumber_not_fails (s : Text) : ¬ Fails (scanNumber s) := by
  simp only [scanNumber]
  repeat' split
  all_goals exact fails_ok

theorem tail_terminated (h : s.head? = some c) : (terminated s).tail = terminated s.tail := by
  obtain ⟨t, rfl⟩ := List.head?_eq_some_iff.1 h
  rfl

theorem scanDollar_fails (h : Fails (scanDollar s)) : Fails (scanDollar (terminated s)) := by
  have taken := Text.takeWhile_terminated (p := fun c => Text.isAlphanumeric c || c == '_')
    (by decide) s
  have dropped := Text.dropWhile_terminated (p := fun c => Text.isAlphanumeric c || c == '_')
    (by decide) s
  have dollar (s : Text) : (terminated s).head? = some '$' ↔ s.head? = some '$' :=
    head?_terminated_iff (by decide)
  simp only [scanDollar, taken, dropped, dollar] at h ⊢
  split at h
  · next opening =>
    rw [if_pos opening, tail_terminated opening]
    cases body : dollarBody false s.tail with
    | none =>
      rw [dollarBody_unclosed body]
      exact fails_error _
    | some =>
      rw [body] at h
      exact absurd h fails_ok
  next opening =>
  rw [if_neg opening]
  split at h
  · next tagged =>
    rw [if_pos tagged, tail_terminated tagged]
    split at h
    · exact absurd h fails_ok
    · next body =>
      rw [taggedBody_unclosed body]
      exact fails_error _
  · exact absurd h fails_ok

theorem scanSign_not_fails (c : Char) (s : Text) : ¬ Fails (scanSign c s) := by
  unfold scanSign
  split <;> exact fails_ok

theorem scanTaking_not_fails (sign s : Text) : ¬ Fails (scanTaking sign s) := by
  cases s with
  | nil => exact fails_ok
  | cons c s =>
    rw [scanTaking]
    split <;> exact fails_ok

theorem scanHash_not_fails (s : Text) : ¬ Fails (scanHash s) :=
  scanHash_eq s ▸ scanTaking_not_fails _ s

theorem scanAt_not_fails (s : Text) : ¬ Fails (scanAt s) := by
  by_cases second : s.head? = some '@'
  · obtain ⟨s, rfl⟩ := List.head?_eq_some_iff.1 second
    exact scanAt_at s ▸ scanTaking_not_fails _ s
  · exact scanAt_other second ▸ scanTaking_not_fails _ s

theorem scanOther_fails_iff : Fails (scanOther c s) ↔ c = '$' ∧ Fails (scanDollar s) := by
  by_cases dollar : c = '$'
  · subst dollar
    have read : scanOther '$' s = scanDollar s := by
      unfold scanOther
      simp
    rw [read, and_iff_right rfl]
  · refine iff_of_false ?_ fun h => dollar h.1
    unfold scanOther
    repeat' split
    · exact scanHash_not_fails s
    · exact scanAt_not_fails s
    · exact fails_ok
    · exact scanWord_not_fails _ s
    · exact fails_ok
    · exact scanSign_not_fails c s

theorem scanComment?_fails {found : Scanned} (e : scanComment? c s = some found) (h : Fails found) :
    ∃ found', scanComment? c (terminated s) = some found' ∧ Fails found' := by
  have dash : (terminated s).head? = some '-' ↔ s.head? = some '-' :=
    head?_terminated_iff (by decide)
  have star : (terminated s).head? = some '*' ↔ s.head? = some '*' :=
    head?_terminated_iff (by decide)
  simp only [scanComment?, dash, star] at e ⊢
  split at e
  · cases e
    exact absurd h fails_ok
  next line =>
  rw [if_neg line]
  split at e
  · next block =>
    cases e
    rw [if_pos block, tail_terminated block.2]
    split at h
    · exact absurd h fails_ok
    · next body =>
      rw [commentBody_unclosed body]
      exact ⟨_, rfl, fails_error _⟩
  · cases e

theorem scanCommentOrOther_fails (h : Fails ((scanComment? c s).getD (scanOther c s))) :
    Fails ((scanComment? c (terminated s)).getD (scanOther c (terminated s))) := by
  cases comment : scanComment? c s with
  | some found =>
    rw [comment] at h
    obtain ⟨found', e, h'⟩ := scanComment?_fails comment h
    rw [e]
    exact h'
  | none =>
    rw [comment] at h
    obtain ⟨rfl, h⟩ := scanOther_fails_iff.1 h
    have plain : scanComment? '$' (terminated s) = none := rfl
    rw [plain]
    exact scanOther_fails_iff.2 ⟨rfl, scanDollar_fails h⟩

/-- A letter opens a string before a quote, and begins something else before what is none. -/
theorem opened_fails {quote : Char} {f g : Text → Scanned} (other : quote ≠ ';')
    (opened : s.head? = some quote → Fails (f s) → Fails (f (terminated s)))
    (unopened : Fails (g s) → Fails (g (terminated s)))
    (h : Fails (if s.head? = some quote then f s else g s)) :
    Fails (if (terminated s).head? = some quote then f (terminated s) else g (terminated s)) := by
  by_cases next : s.head? = some quote
  · rw [if_pos next] at h
    rw [if_pos ((head?_terminated_iff other).2 next)]
    exact opened next h
  · rw [if_neg next] at h
    rw [if_neg (mt (head?_terminated_iff other).1 next)]
    exact unopened h

theorem scanString_opened_fails {form : StringForm} {quote : Char} {escapes : Bool} {at_ : Text}
    (other : quote ≠ ';') (opened : s.head? = some quote)
    (h : Fails (scanString form quote escapes at_ s.tail)) (at' : Text) :
    Fails (scanString form quote escapes at' (terminated s).tail) := by
  rw [tail_terminated opened]
  exact scanString_fails other h at'

theorem scanLettered_fails (h : Fails (scanLettered c s)) :
    Fails (scanLettered c (terminated s)) := by
  have word (s : Text) : Fails (scanWord [c] s) → Fails (scanWord [c] (terminated s)) :=
    fun h => absurd h (scanWord_not_fails _ s)
  simp only [scanLettered] at h ⊢
  by_cases bytes : c = 'b' ∨ c = 'B'
  · rw [if_pos bytes] at h ⊢
    exact opened_fails (f := fun s => scanString (.bytes '\'') '\'' false s s.tail)
      (g := fun s => if s.head? = some '"' then scanString (.bytes '"') '"' false s s.tail
        else scanWord [c] s)
      (by decide) (fun o h => scanString_opened_fails (by decide) o h _)
      (opened_fails (f := fun s => scanString (.bytes '"') '"' false s s.tail) (by decide)
        (fun o h => scanString_opened_fails (by decide) o h _) (word s)) h
  rw [if_neg bytes] at h ⊢
  by_cases raw : c = 'r' ∨ c = 'R'
  · rw [if_pos raw] at h ⊢
    exact opened_fails (g := fun s => if s.head? = some '"' then scanRaw '"' s
        else scanWord [c] s)
      (by decide) (fun _ => scanRaw_fails (by decide))
      (opened_fails (by decide) (fun _ => scanRaw_fails (by decide)) (word s)) h
  rw [if_neg raw] at h ⊢
  by_cases national : c = 'n' ∨ c = 'N'
  · rw [if_pos national] at h ⊢
    exact opened_fails (f := fun s => scanString .national '\'' true s s.tail) (by decide)
      (fun o h => scanString_opened_fails (by decide) o h _) (word s) h
  rw [if_neg national] at h ⊢
  by_cases hex : c = 'x' ∨ c = 'X'
  · rw [if_pos hex] at h ⊢
    exact opened_fails (f := fun s => scanString .hex '\'' true s s.tail) (by decide)
      (fun o h => scanString_opened_fails (by decide) o h _) (word s) h
  rw [if_neg hex] at h ⊢
  by_cases escaped : c = 'e' ∨ c = 'E'
  · rw [if_pos escaped] at h ⊢
    refine opened_fails (f := scanEscaped c) (by decide) ?_ (word s) h
    intro opened h
    unfold scanEscaped at h ⊢
    rw [tail_terminated opened]
    split at h
    · exact absurd h fails_ok
    · next body =>
      rw [escapedBody_unclosed body]
      exact fails_error _
  rw [if_neg escaped] at h ⊢
  by_cases unicode : (c = 'u' ∨ c = 'U') ∧ ['&', '\''].isPrefixOf s = true
  · obtain ⟨t, rfl⟩ := List.isPrefixOf_iff_prefix.1 unicode.2
    have marked : (c = 'u' ∨ c = 'U') ∧
        ['&', '\''].isPrefixOf (terminated (['&', '\''] ++ t)) = true := ⟨unicode.1, rfl⟩
    rw [if_pos unicode] at h
    rw [if_pos marked]
    split at h
    · exact absurd h fails_ok
    · next fault body =>
      obtain ⟨fault', body'⟩ := unicodeBody_fails ⟨fault, body⟩
      have body' : unicodeBody ((terminated (['&', '\''] ++ t)).drop 2) = .error fault' := body'
      rw [body']
      exact fails_error _
  · rw [if_neg unicode] at h
    exact absurd h (scanWord_not_fails _ s)

theorem scanQuotedWord_fails {quote : Char} (other : quote ≠ ';')
    (h : Fails (scanQuotedWord quote s)) : Fails (scanQuotedWord quote (terminated s)) := by
  unfold scanQuotedWord at h ⊢
  split at h
  · exact absurd h fails_ok
  · next body =>
    rw [quotedBody_unclosed other body]
    exact fails_error _

theorem scan_fails (h : Fails (scan c s)) : Fails (scan c (terminated s)) := by
  unfold scan at h ⊢
  split at h
  · exact absurd h fails_ok
  next noBlank =>
  rw [if_neg noBlank]
  split at h
  · exact absurd h fails_ok
  next noCarriage =>
  rw [if_neg noCarriage]
  split at h
  · next letter =>
    rw [if_pos letter]
    exact scanLettered_fails h
  next noLetter =>
  rw [if_neg noLetter]
  split at h
  · next quote =>
    rw [if_pos quote]
    exact scanString_fails (by decide) h _
  next noQuote =>
  rw [if_neg noQuote]
  split at h
  · next quoted =>
    rw [if_pos quoted]
    refine scanQuotedWord_fails ?_ h
    rcases quoted with rfl | rfl <;> decide
  next noName =>
  rw [if_neg noName]
  split at h
  · exact absurd h (scanNumber_not_fails _)
  next noNumber =>
  rw [if_neg noNumber]
  exact scanCommentOrOther_fails h

end Fails

end SqlReview.Sql
