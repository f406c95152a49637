import Mathlib.Data.List.TakeWhile
import SqlReview.Proofs.Sql.Lexing

/-!
How far the body of a quoted thing is looked for. What comes after its closing can be exchanged for
any text that begins with a semicolon, a space or a line feed, and the body stays the same: none of
them doubles a quote or goes on with the digits of an escape.
-/
namespace SqlReview.Sql

/-- Characters that go on with nothing but what has an end mark of its own. -/
def stops : Text := [';', ' ', '\n']

def Stops (t : Text) : Prop := ∃ c ∈ stops, t.head? = some c

section Characters

variable {t : Text}

theorem Stops.exists_cons (h : Stops t) : ∃ c t', c ∈ stops ∧ t = c :: t' := by
  obtain ⟨c, known, e⟩ := h
  obtain ⟨t', rfl⟩ := List.head?_eq_some_iff.1 e
  exact ⟨c, t', known, rfl⟩

theorem Stops.not_head (h : Stops t) {p : Char → Bool} (none : stops.any p = false) :
    ∀ c ∈ t.head?, p c = false := by
  obtain ⟨c, known, e⟩ := h
  rw [e]
  rintro d ⟨⟩
  rw [List.any_eq_false] at none
  simpa using none c known

theorem Stops.head?_ne (h : Stops t) {c : Char} (other : c ∉ stops) : t.head? ≠ some c := by
  obtain ⟨d, known, e⟩ := h
  rw [e]
  rintro ⟨⟩
  exact other known

end Characters

section Suffixes

variable {s u r t w : Text}

theorem length_lt_append (r u : Text) : ¬ (r ++ u).length < u.length := by
  rw [List.length_append]
  omega

theorem exists_append_of_suffix (left : w <:+ s ++ u) (long : u.length ≤ w.length) :
    ∃ x, w = x ++ u := by
  obtain ⟨x, e⟩ := List.suffix_of_suffix_length_le (List.suffix_append s u) left long
  exact ⟨x, e.symm⟩

theorem exists_cons_of_append {c : Char} (e : s ++ u = c :: w) (long : u.length ≤ w.length) :
    ∃ s', s = c :: s' ∧ w = s' ++ u := by
  cases s with
  | nil =>
    rw [List.nil_append] at e
    rw [e, List.length_cons] at long
    omega
  | cons d s =>
    obtain ⟨rfl, rfl⟩ := List.cons.inj e
    exact ⟨s, rfl, rfl⟩

/-- A run that ends before the exchanged part, or where it begins. -/
theorem dropWhile_exchange_of {p : Char → Bool} (none : r = [] → ∀ c ∈ t.head?, p c = false)
    (h : (s ++ u).dropWhile p = r ++ u) :
    (s ++ t).takeWhile p = (s ++ u).takeWhile p ∧ (s ++ t).dropWhile p = r ++ t := by
  induction s with
  | nil =>
    have long := List.length_dropWhile_le p u
    rw [List.nil_append] at h
    have empty : r = [] := by
      rw [h, List.length_append] at long
      exact List.eq_nil_of_length_eq_zero (by omega)
    have kept : u.takeWhile p = [] := by
      have whole := congrArg List.length (List.takeWhile_append_dropWhile (p := p) (l := u))
      rw [h, empty, List.nil_append, List.length_append] at whole
      exact List.eq_nil_of_length_eq_zero (by omega)
    rw [List.nil_append, List.nil_append, kept, empty]
    exact ⟨Text.takeWhile_run (List.forall_mem_nil _) (none empty),
      Text.dropWhile_run (List.forall_mem_nil _) (none empty)⟩
  | cons c s ih =>
    rw [List.cons_append] at h ⊢
    by_cases hc : p c = true
    · rw [List.dropWhile_cons_of_pos hc] at h
      obtain ⟨taken, dropped⟩ := ih h
      rw [List.takeWhile_cons_of_pos hc, List.cons_append, List.takeWhile_cons_of_pos hc,
        List.dropWhile_cons_of_pos hc, taken]
      exact ⟨rfl, dropped⟩
    · rw [List.dropWhile_cons_of_neg hc] at h
      rw [List.takeWhile_cons_of_neg hc, List.cons_append, List.takeWhile_cons_of_neg hc,
        List.dropWhile_cons_of_neg hc]
      obtain rfl : c :: s = r := List.append_cancel_right h
      exact ⟨rfl, rfl⟩

theorem dropWhile_exchange {p : Char → Bool} (none : ∀ c ∈ t.head?, p c = false)
    (h : (s ++ u).dropWhile p = r ++ u) :
    (s ++ t).takeWhile p = (s ++ u).takeWhile p ∧ (s ++ t).dropWhile p = r ++ t :=
  dropWhile_exchange_of (fun _ => none) h

/-- The same for a run of at most `width` characters. -/
theorem takeWhile_take_exchange {p : Char → Bool} {width : Nat}
    (none : ∀ c ∈ t.head?, p c = false)
    (h : (s ++ u).drop (((s ++ u).take width).takeWhile p).length = r ++ u) :
    ((s ++ t).take width).takeWhile p = ((s ++ u).take width).takeWhile p ∧
      (s ++ t).drop (((s ++ u).take width).takeWhile p).length = r ++ t := by
  induction width generalizing s with
  | zero =>
    rw [List.take_zero, List.takeWhile_nil, List.length_nil, List.drop_zero] at h
    obtain rfl := List.append_cancel_right h
    exact ⟨rfl, rfl⟩
  | succ width ih =>
    cases s with
    | nil =>
      rw [List.nil_append] at h ⊢
      have whole := congrArg List.length h
      rw [List.length_drop, List.length_append] at whole
      have short := (List.takeWhile_sublist p (l := u.take (width + 1))).length_le
      rw [List.length_take] at short
      have kept : (u.take (width + 1)).takeWhile p = [] :=
        List.eq_nil_of_length_eq_zero (by omega)
      have empty : r = [] := List.eq_nil_of_length_eq_zero (by omega)
      rw [List.nil_append, kept, empty]
      refine ⟨?_, rfl⟩
      cases t with
      | nil => rfl
      | cons c t => simp [none c rfl]
    | cons c s =>
      rw [List.cons_append] at h ⊢
      by_cases hc : p c = true
      · rw [List.take_succ_cons, List.takeWhile_cons_of_pos hc, List.length_cons,
          List.drop_succ_cons] at h
        obtain ⟨taken, dropped⟩ := ih h
        rw [List.cons_append, List.take_succ_cons, List.take_succ_cons,
          List.takeWhile_cons_of_pos hc, List.takeWhile_cons_of_pos hc, List.length_cons,
          List.drop_succ_cons, taken]
        exact ⟨rfl, dropped⟩
      · rw [List.take_succ_cons, List.takeWhile_cons_of_neg hc, List.length_nil,
          List.drop_zero] at h
        obtain rfl : c :: s = r := List.append_cancel_right h
        rw [List.cons_append, List.take_succ_cons, List.take_succ_cons,
          List.takeWhile_cons_of_neg hc, List.takeWhile_cons_of_neg hc]
        exact ⟨rfl, rfl⟩

end Suffixes

section Bodies

variable {s u r t body : Text}

theorem consBody_eq_some_iff {c : Char} {found : Option (Text × Text)} {rest : Text} :
    consBody c found = some (body, rest) ↔ ∃ b, found = some (b, rest) ∧ body = c :: b := by
  simp only [consBody, Option.map_eq_some_iff, Prod.mk.injEq, Prod.exists]
  constructor
  · rintro ⟨b, _, e, rfl, rfl⟩
    exact ⟨b, e, rfl⟩
  · rintro ⟨b, e, rfl⟩
    exact ⟨b, rest, e, rfl, rfl⟩

theorem quotedBody_quote {quote : Char} {escapes : Bool} (other : t.head? ≠ some quote) :
    quotedBody quote escapes (quote :: t) = some ([], t) := by
  cases t with
  | nil => simp [quotedBody]
  | cons d t =>
    have apart : d ≠ quote := fun e => other (congrArg some e)
    simp [quotedBody, apart]

theorem quotedBody_singleton {quote c : Char} {escapes : Bool}
    (h : quotedBody quote escapes (c :: u) = some (body, r ++ u)) :
    c = quote ∧ body = [] ∧ r = [] := by
  cases u with
  | nil =>
    simp only [quotedBody, Option.ite_none_right_eq_some] at h
    obtain ⟨quoted, e⟩ := h
    obtain ⟨rfl, rest⟩ := Prod.mk.inj (Option.some.inj e)
    exact ⟨quoted, rfl, (List.append_eq_nil_iff.1 rest.symm).1⟩
  | cons d u =>
    simp only [quotedBody] at h
    repeat' split at h
    · obtain ⟨b, h, _⟩ := consBody_eq_some_iff.1 h
      have := quotedBody_length h
      simp only [List.length_append, List.length_cons] at this
      omega
    · next quoted _ =>
      obtain ⟨rfl, e⟩ := Prod.mk.inj (Option.some.inj h)
      exact ⟨quoted, rfl, List.append_left_eq_self.1 e.symm⟩
    · obtain ⟨b, h, _⟩ := consBody_eq_some_iff.1 h
      have := quotedBody_length h
      simp only [List.length_append, List.length_cons] at this
      omega
    · obtain ⟨b, h, _⟩ := consBody_eq_some_iff.1 h
      exact absurd (quotedBody_length h) (length_lt_append r _)

/-- A quote that could be doubled is the only thing that must not come next. -/
theorem quotedBody_exchange {quote : Char} {escapes : Bool} (other : t.head? ≠ some quote)
    (h : quotedBody quote escapes (s ++ u) = some (body, r ++ u)) :
    quotedBody quote escapes (s ++ t) = some (body, r ++ t) := by
  fun_induction quotedBody quote escapes s generalizing body with
  | case1 => exact absurd (quotedBody_length h) (length_lt_append r u)
  | case2 =>
    obtain ⟨_, rfl, rfl⟩ := quotedBody_singleton h
    exact quotedBody_quote other
  | case3 c noQuote => exact absurd (quotedBody_singleton h).1 noQuote
  | case4 s ih =>
    simp only [List.cons_append, quotedBody, if_true] at h ⊢
    obtain ⟨b, found, rfl⟩ := consBody_eq_some_iff.1 h
    exact consBody_eq_some_iff.2 ⟨b, ih found, rfl⟩
  | case5 d s single =>
    simp only [List.cons_append, quotedBody, if_true, if_neg single] at h ⊢
    obtain ⟨rfl, rest⟩ := Prod.mk.inj (Option.some.inj h)
    have rest : (d :: s) ++ u = r ++ u := rest
    rw [← List.append_cancel_right rest]
    rfl
  | case6 c d s noQuote escaped ih =>
    simp only [List.cons_append, quotedBody, if_neg noQuote, if_pos escaped] at h ⊢
    obtain ⟨b, found, rfl⟩ := consBody_eq_some_iff.1 h
    exact consBody_eq_some_iff.2 ⟨b, ih found, rfl⟩
  | case7 c d s noQuote plain ih =>
    simp only [List.cons_append, quotedBody, if_neg noQuote, if_neg plain] at h ⊢
    obtain ⟨b, found, rfl⟩ := consBody_eq_some_iff.1 h
    exact consBody_eq_some_iff.2 ⟨b, ih found, rfl⟩

theorem tripledBody_length_add {quote : Char} {rest : Text}
    (h : tripledBody quote s = some (body, rest)) : rest.length + 3 ≤ s.length := by
  fun_induction tripledBody quote s generalizing body rest with
  | case1 c d e s _ => cases h; simp
  | case2 c d e s _ ih =>
    obtain ⟨b, h⟩ := consBody_eq_some h
    exact Nat.le_succ_of_le (ih h)
  | case3 => contradiction

theorem tripledBody_exchange {quote : Char}
    (h : tripledBody quote (s ++ u) = some (body, r ++ u)) :
    tripledBody quote (s ++ t) = some (body, r ++ t) := by
  fun_induction tripledBody quote s generalizing body with
  | case1 c d e s tripled =>
    simp only [List.cons_append, tripledBody, if_pos tripled] at h ⊢
    obtain ⟨rfl, rest⟩ := Prod.mk.inj (Option.some.inj h)
    rw [List.append_cancel_right rest]
  | case2 c d e s untripled ih =>
    simp only [List.cons_append, tripledBody, if_neg untripled] at h ⊢
    obtain ⟨b, found, rfl⟩ := consBody_eq_some_iff.1 h
    exact consBody_eq_some_iff.2 ⟨b, ih found, rfl⟩
  | case3 s short =>
    have long := tripledBody_length_add h
    rw [List.length_append, List.length_append] at long
    match s with
    | [] | [_] | [_, _] => simp at long; omega
    | c :: d :: e :: s => exact absurd rfl (short c d e s)

theorem commentBody_exchange {depth : Nat} {last : Char}
    (h : commentBody depth last (s ++ u) = some (body, r ++ u)) :
    commentBody depth last (s ++ t) = some (body, r ++ t) := by
  induction s generalizing depth last body with
  | nil => exact absurd (commentBody_length h) (length_lt_append r u)
  | cons c s ih =>
    simp only [List.cons_append, commentBody] at h ⊢
    split at h
    · next opens =>
      rw [if_pos opens]
      obtain ⟨b, found, rfl⟩ := consBody_eq_some_iff.1 h
      exact consBody_eq_some_iff.2 ⟨b, ih found, rfl⟩
    · next noOpen =>
      rw [if_neg noOpen]
      split at h
      · next closes =>
        rw [if_pos closes]
        split at h
        · next outer =>
          obtain ⟨rfl, rest⟩ := Prod.mk.inj (Option.some.inj h)
          rw [if_pos outer, List.append_cancel_right rest]
        · next inner =>
          rw [if_neg inner]
          obtain ⟨b, found, rfl⟩ := consBody_eq_some_iff.1 h
          exact consBody_eq_some_iff.2 ⟨b, ih found, rfl⟩
      · next noClose =>
        rw [if_neg noClose]
        obtain ⟨b, found, rfl⟩ := consBody_eq_some_iff.1 h
        exact consBody_eq_some_iff.2 ⟨b, ih found, rfl⟩

theorem dollarBody_exchange {afterDollar : Bool}
    (h : dollarBody afterDollar (s ++ u) = some (body, r ++ u)) :
    dollarBody afterDollar (s ++ t) = some (body, r ++ t) := by
  induction s generalizing afterDollar body with
  | nil => exact absurd (dollarBody_length h) (length_lt_append r u)
  | cons c s ih =>
    cases afterDollar with
    | false =>
      simp only [List.cons_append, dollarBody] at h ⊢
      split at h
      · next dollar =>
        rw [if_pos dollar]
        exact ih h
      · next plain =>
        rw [if_neg plain]
        obtain ⟨b, found, rfl⟩ := consBody_eq_some_iff.1 h
        exact consBody_eq_some_iff.2 ⟨b, ih found, rfl⟩
    | true =>
      simp only [List.cons_append, dollarBody] at h ⊢
      split at h
      · next closes =>
        obtain ⟨rfl, rest⟩ := Prod.mk.inj (Option.some.inj h)
        rw [if_pos closes, List.append_cancel_right rest]
      · next alone =>
        rw [if_neg alone]
        obtain ⟨_, later, rfl⟩ := consBody_eq_some_iff.1 h
        obtain ⟨b, found, rfl⟩ := consBody_eq_some_iff.1 later
        exact consBody_eq_some_iff.2 ⟨_, consBody_eq_some_iff.2 ⟨b, ih found, rfl⟩, rfl⟩

theorem taggedBody_exchange {tag : Text} {expected : Option Text}
    (h : taggedBody tag expected (s ++ u) = some (body, r ++ u)) :
    taggedBody tag expected (s ++ t) = some (body, r ++ t) := by
  induction s generalizing expected body with
  | nil => exact absurd (taggedBody_length h) (length_lt_append r u)
  | cons c s ih =>
    match expected with
    | none | some (_ :: _) =>
      simp only [List.cons_append, taggedBody] at h ⊢
      obtain ⟨b, found, rfl⟩ := consBody_eq_some_iff.1 h
      exact consBody_eq_some_iff.2 ⟨b, ih found, rfl⟩
    | some [] =>
      simp only [List.cons_append, taggedBody] at h ⊢
      split at h
      · next closes =>
        obtain ⟨rfl, rest⟩ := Prod.mk.inj (Option.some.inj h)
        rw [if_pos closes, List.append_cancel_right rest]
      · next broken =>
        rw [if_neg broken]
        obtain ⟨b, found, rfl⟩ := consBody_eq_some_iff.1 h
        exact consBody_eq_some_iff.2 ⟨b, ih found, rfl⟩

/-- A number of digits that is fixed is not looked for beyond. -/
theorem hexEscape?_exchange {width : Nat} {c : Char}
    (h : hexEscape? width (s ++ u) = some (c, r ++ u)) :
    hexEscape? width (s ++ t) = some (c, r ++ t) := by
  simp only [hexEscape?] at h
  split at h
  · next full =>
    simp only [Option.bind_eq_some_iff] at h
    obtain ⟨d, code, h⟩ := h
    split at h
    · cases h
    · next filled =>
      obtain ⟨rfl, rest⟩ := Prod.mk.inj (Option.some.inj h)
      have within : width ≤ s.length := by
        have left := congrArg List.length rest
        have all := full.1
        rw [List.length_take, List.length_append] at all
        rw [List.length_drop, List.length_append, List.length_append] at left
        omega
      rw [List.take_append_of_le_length within] at full code
      rw [List.drop_append_of_le_length within] at rest
      simp only [hexEscape?, List.take_append_of_le_length within,
        List.drop_append_of_le_length within, if_pos full, code, Option.bind_some, if_neg filled,
        List.append_cancel_right rest]
  · cases h

theorem escape?_exchange {c : Char} (stops : Stops t) (h : escape? (s ++ u) = some (c, r ++ u)) :
    escape? (s ++ t) = some (c, r ++ t) := by
  cases s with
  | nil => exact absurd (escape?_length h) (length_lt_append r u)
  | cons d s =>
    rw [List.cons_append, escape?] at h ⊢
    cases control : controlOf? d with
    | some e =>
      simp only [control] at h ⊢
      obtain ⟨rfl, rest⟩ := Prod.mk.inj (Option.some.inj h)
      rw [List.append_cancel_right rest]
    | none =>
      simp only [control] at h ⊢
      by_cases short : d = 'u'
      · rw [if_pos short] at h ⊢
        exact hexEscape?_exchange h
      rw [if_neg short] at h ⊢
      by_cases long : d = 'U'
      · rw [if_pos long] at h ⊢
        exact hexEscape?_exchange h
      rw [if_neg long] at h ⊢
      by_cases hex : d = 'x'
      · rw [if_pos hex] at h ⊢
        have noHex := stops.not_head (p := Text.isHexDigit) (by decide)
        by_cases none : (((s ++ u).take 2).takeWhile Text.isHexDigit).isEmpty = true
        · rw [if_pos none] at h
          obtain ⟨rfl, rest⟩ := Prod.mk.inj (Option.some.inj h)
          rw [List.isEmpty_iff] at none
          have rest : (s ++ u).drop (((s ++ u).take 2).takeWhile Text.isHexDigit).length =
              r ++ u := by
            rw [none]
            exact rest
          obtain ⟨taken, dropped⟩ := takeWhile_take_exchange noHex rest
          rw [none] at taken dropped
          rw [taken, ← dropped]
          rfl
        · rw [if_neg none] at h
          simp only [Option.map_eq_some_iff, Prod.mk.injEq] at h
          obtain ⟨e, code, rfl, rest⟩ := h
          obtain ⟨taken, dropped⟩ := takeWhile_take_exchange noHex rest
          rw [taken, if_neg none, code, dropped]
          rfl
      rw [if_neg hex] at h ⊢
      by_cases octal : isOctalDigit d = true
      · rw [if_pos octal] at h ⊢
        simp only [Option.map_eq_some_iff, Prod.mk.injEq] at h
        obtain ⟨e, code, rfl, rest⟩ := h
        obtain ⟨taken, dropped⟩ := takeWhile_take_exchange
          (stops.not_head (p := isOctalDigit) (by decide)) rest
        rw [taken, code, dropped]
        rfl
      rw [if_neg octal] at h ⊢
      by_cases zero : d.toNat = 0
      · rw [if_pos zero] at h
        cases h
      · rw [if_neg zero] at h ⊢
        obtain ⟨rfl, rest⟩ := Prod.mk.inj (Option.some.inj h)
        rw [List.append_cancel_right rest]

theorem hexEscape?_suffix {width : Nat} {c : Char} {rest : Text}
    (h : hexEscape? width s = some (c, rest)) : rest <:+ s := by
  simp only [hexEscape?, Option.ite_none_right_eq_some, Option.bind_eq_some_iff] at h
  obtain ⟨_, d, _, h⟩ := h
  split at h
  · cases h
  · cases h
    exact List.drop_suffix _ _

theorem escape?_suffix {c : Char} {rest : Text} (h : escape? s = some (c, rest)) : rest <:+ s := by
  cases s with
  | nil => simp [escape?] at h
  | cons d s =>
    refine List.IsSuffix.trans ?_ (List.suffix_cons d s)
    simp only [escape?] at h
    repeat' split at h
    all_goals first
      | contradiction
      | exact hexEscape?_suffix h
      | (cases h; exact List.suffix_refl _)
      | (simp only [Option.map_eq_some_iff] at h
         obtain ⟨e, _, h⟩ := h
         cases h
         exact List.drop_suffix _ _)

theorem escapedBody_quote (other : t.head? ≠ some '\'') :
    escapedBody ('\'' :: t) = some ([], t) := by
  cases t with
  | nil => simp [escapedBody]
  | cons c t =>
    have apart : c ≠ '\'' := fun e => other (congrArg some e)
    rw [escapedBody]
    simpa using apart

theorem escapedBody_plain {c : Char} (quote : c ≠ '\'') (backslash : c ≠ '\\') :
    escapedBody (c :: t) = consBody c (escapedBody t) := by
  rw [escapedBody]
  · exact fun _ e _ => quote e
  · exact quote
  · exact backslash

theorem escapedBody_escape {c : Char} {rest : Text} (h : escape? t = some (c, rest)) :
    escapedBody ('\\' :: t) = consBody c (escapedBody rest) := by
  rw [escapedBody]
  split
  · next none =>
    rw [h] at none
    cases none
  · next found =>
    rw [h] at found
    cases found
    rfl

theorem head?_exchange {c : Char} (other : t.head? ≠ some c) (h : (r ++ u).head? ≠ some c) :
    (r ++ t).head? ≠ some c := by
  cases r with
  | nil => exact other
  | cons d r => exact h

theorem escapedBody_exchange (stops : Stops t)
    (h : escapedBody (s ++ u) = some (body, r ++ u)) :
    escapedBody (s ++ t) = some (body, r ++ t) := by
  have long {a b : Text} (h : escapedBody a = some (b, r ++ u)) : u.length ≤ a.length := by
    have := escapedBody_length h
    rw [List.length_append] at this
    omega
  generalize e : s ++ u = w at h
  fun_induction escapedBody w generalizing s body with
  | case1 => contradiction
  | case2 w ih =>
    obtain ⟨b, found, rfl⟩ := consBody_eq_some_iff.1 h
    obtain ⟨s', rfl, e'⟩ := exists_cons_of_append e (Nat.le_succ_of_le (long found))
    obtain ⟨s, rfl, rfl⟩ := exists_cons_of_append e'.symm (long found)
    simp only [List.cons_append, escapedBody]
    exact consBody_eq_some_iff.2 ⟨b, ih rfl found, rfl⟩
  | case3 w single =>
    obtain ⟨rfl, rfl⟩ := Prod.mk.inj (Option.some.inj h)
    obtain ⟨s, rfl, e'⟩ := exists_cons_of_append e (by simp)
    obtain rfl := List.append_cancel_right e'
    apply escapedBody_quote
    apply head?_exchange (stops.head?_ne (by decide))
    intro doubled
    obtain ⟨w, e⟩ := List.head?_eq_some_iff.1 doubled
    exact single w e
  | case4 => contradiction
  | case5 w c w' escaped _ ih =>
    obtain ⟨b, found, rfl⟩ := consBody_eq_some_iff.1 h
    have suffix := escape?_suffix escaped
    obtain ⟨s, rfl, rfl⟩ := exists_cons_of_append e
      (Nat.le_trans (long found) suffix.length_le)
    obtain ⟨s', rfl⟩ := exists_append_of_suffix suffix (long found)
    rw [List.cons_append, escapedBody_escape (escape?_exchange stops escaped)]
    exact consBody_eq_some_iff.2 ⟨b, ih rfl found, rfl⟩
  | case6 c w _ quote backslash ih =>
    obtain ⟨b, found, rfl⟩ := consBody_eq_some_iff.1 h
    obtain ⟨s, rfl, rfl⟩ := exists_cons_of_append e (long found)
    rw [List.cons_append, escapedBody_plain quote backslash]
    exact consBody_eq_some_iff.2 ⟨b, ih rfl found, rfl⟩

theorem hexDigits_suffix {count value : Nat} {c : Char} {rest : Text}
    (h : hexDigits count value s = .ok (c, rest)) : rest <:+ s := by
  induction count generalizing value s with
  | zero =>
    simp only [hexDigits] at h
    split at h
    · cases h
      exact List.suffix_refl _
    · cases h
  | succ count ih =>
    cases s with
    | nil => cases h
    | cons d s =>
      simp only [hexDigits] at h
      split at h
      · exact (ih h).trans (List.suffix_cons d s)
      · cases h

theorem hexDigits_exchange {count value : Nat} {c : Char}
    (h : hexDigits count value (s ++ u) = .ok (c, r ++ u)) :
    hexDigits count value (s ++ t) = .ok (c, r ++ t) := by
  induction count generalizing value s with
  | zero =>
    simp only [hexDigits] at h ⊢
    cases code : codePoint? value with
    | none =>
      rw [code] at h
      cases h
    | some d =>
      rw [code] at h
      obtain ⟨rfl, rest⟩ := Prod.mk.inj (Except.ok.inj h)
      rw [List.append_cancel_right rest]
  | succ count ih =>
    cases s with
    | nil =>
      cases u with
      | nil => cases h
      | cons d u =>
        simp only [List.nil_append, hexDigits] at h
        split at h
        · exact absurd (Nat.lt_succ_of_le (hexDigits_length h)) (length_lt_append r (d :: u))
        · cases h
    | cons d s =>
      simp only [List.cons_append, hexDigits] at h ⊢
      split at h
      · next hex =>
        rw [if_pos hex]
        exact ih h
      · cases h

theorem consRead_eq_ok_iff {c : Char} {found : Except Fault (Text × Text)} {rest : Text} :
    consRead c found = .ok (body, rest) ↔ ∃ b, found = .ok (b, rest) ∧ body = c :: b := by
  cases found with
  | error => simp [consRead, Except.map]
  | ok p =>
    obtain ⟨b, r⟩ := p
    simp only [consRead, Except.map, Except.ok.injEq, Prod.mk.injEq]
    constructor
    · rintro ⟨rfl, rfl⟩
      exact ⟨b, ⟨rfl, rfl⟩, rfl⟩
    · rintro ⟨b, ⟨rfl, rfl⟩, rfl⟩
      exact ⟨rfl, rfl⟩

theorem unicodeBody_quote (other : t.head? ≠ some '\'') :
    unicodeBody ('\'' :: t) = .ok ([], t) := by
  cases t with
  | nil => simp [unicodeBody]
  | cons c t =>
    have apart : c ≠ '\'' := fun e => other (congrArg some e)
    rw [unicodeBody]
    simpa using apart

theorem unicodeBody_plain {c : Char} (quote : c ≠ '\'') (backslash : c ≠ '\\') :
    unicodeBody (c :: t) = consRead c (unicodeBody t) := by
  rw [unicodeBody]
  · exact fun _ e _ => quote e
  · exact quote
  · exact fun _ e _ => backslash e
  · exact fun _ e _ => backslash e
  · exact backslash

theorem unicodeBody_long {c : Char} {rest : Text} (h : hexDigits 6 0 t = .ok (c, rest)) :
    unicodeBody ('\\' :: '+' :: t) = consRead c (unicodeBody rest) := by
  rw [unicodeBody]
  split
  · next none =>
    rw [h] at none
    cases none
  · next found =>
    rw [h] at found
    cases found
    rfl

theorem unicodeBody_short {c : Char} {rest : Text} (doubled : t.head? ≠ some '\\')
    (long : t.head? ≠ some '+') (h : hexDigits 4 0 t = .ok (c, rest)) :
    unicodeBody ('\\' :: t) = consRead c (unicodeBody rest) := by
  rw [unicodeBody]
  · split
    · next none =>
      rw [h] at none
      cases none
    · next found =>
      rw [h] at found
      cases found
      rfl
  · rintro _ rfl
    exact doubled rfl
  · rintro _ rfl
    exact long rfl

theorem unicodeBody_exchange (stops : Stops t)
    (h : unicodeBody (s ++ u) = .ok (body, r ++ u)) :
    unicodeBody (s ++ t) = .ok (body, r ++ t) := by
  have long {a b : Text} (h : unicodeBody a = .ok (b, r ++ u)) : u.length ≤ a.length := by
    have := unicodeBody_length h
    rw [List.length_append] at this
    omega
  have head {a : Text} {c : Char} (h : ∀ w, a = c :: w → False) : a.head? ≠ some c := by
    intro e
    obtain ⟨w, e⟩ := List.head?_eq_some_iff.1 e
    exact h w e
  generalize e : s ++ u = w at h
  fun_induction unicodeBody w generalizing s body with
  | case1 => contradiction
  | case2 w ih =>
    obtain ⟨b, found, rfl⟩ := consRead_eq_ok_iff.1 h
    obtain ⟨s', rfl, e'⟩ := exists_cons_of_append e (Nat.le_succ_of_le (long found))
    obtain ⟨s, rfl, rfl⟩ := exists_cons_of_append e'.symm (long found)
    simp only [List.cons_append, unicodeBody]
    exact consRead_eq_ok_iff.2 ⟨b, ih rfl found, rfl⟩
  | case3 w single =>
    obtain ⟨rfl, rfl⟩ := Prod.mk.inj (Except.ok.inj h)
    obtain ⟨s, rfl, e'⟩ := exists_cons_of_append e (by simp)
    obtain rfl := List.append_cancel_right e'
    exact unicodeBody_quote (head?_exchange (stops.head?_ne (by decide)) (head single))
  | case4 w ih =>
    obtain ⟨b, found, rfl⟩ := consRead_eq_ok_iff.1 h
    obtain ⟨s', rfl, e'⟩ := exists_cons_of_append e (Nat.le_succ_of_le (long found))
    obtain ⟨s, rfl, rfl⟩ := exists_cons_of_append e'.symm (long found)
    simp only [List.cons_append, unicodeBody]
    exact consRead_eq_ok_iff.2 ⟨b, ih rfl found, rfl⟩
  | case5 | case7 => contradiction
  | case6 w c w' digits _ ih =>
    obtain ⟨b, found, rfl⟩ := consRead_eq_ok_iff.1 h
    have suffix := hexDigits_suffix digits
    have longer := Nat.le_trans (long found) suffix.length_le
    obtain ⟨s', rfl, e'⟩ := exists_cons_of_append e (Nat.le_succ_of_le longer)
    obtain ⟨s, rfl, rfl⟩ := exists_cons_of_append e'.symm longer
    obtain ⟨s', rfl⟩ := exists_append_of_suffix suffix (long found)
    rw [List.cons_append, List.cons_append, unicodeBody_long (hexDigits_exchange digits)]
    exact consRead_eq_ok_iff.2 ⟨b, ih rfl found, rfl⟩
  | case8 w doubled plus c w' digits _ ih =>
    obtain ⟨b, found, rfl⟩ := consRead_eq_ok_iff.1 h
    have suffix := hexDigits_suffix digits
    obtain ⟨s, rfl, rfl⟩ := exists_cons_of_append e
      (Nat.le_trans (long found) suffix.length_le)
    obtain ⟨s', rfl⟩ := exists_append_of_suffix suffix (long found)
    have noSlash : (s ++ t).head? ≠ some '\\' :=
      head?_exchange (stops.head?_ne (by decide)) (head doubled)
    have noPlus : (s ++ t).head? ≠ some '+' :=
      head?_exchange (stops.head?_ne (by decide)) (head plus)
    rw [List.cons_append, unicodeBody_short noSlash noPlus (hexDigits_exchange digits)]
    exact consRead_eq_ok_iff.2 ⟨b, ih rfl found, rfl⟩
  | case9 c w _ quote _ _ backslash ih =>
    obtain ⟨b, found, rfl⟩ := consRead_eq_ok_iff.1 h
    obtain ⟨s, rfl, rfl⟩ := exists_cons_of_append e (long found)
    rw [List.cons_append, unicodeBody_plain quote backslash]
    exact consRead_eq_ok_iff.2 ⟨b, ih rfl found, rfl⟩

end Bodies

end SqlReview.Sql
