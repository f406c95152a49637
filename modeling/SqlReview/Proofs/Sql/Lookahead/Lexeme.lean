import SqlReview.Proofs.Sql.Lookahead.Number

/-!
How far a lexeme is looked for. What comes after it can be exchanged for any text that begins with a
semicolon, a space or a line feed, and the lexeme stays the same. Different are only a number sign or
at sign alone, which takes a next character into a word, and a comment without its line feed.
-/
namespace SqlReview.Sql

/-- A lexeme that would go on with the next character if nothing else came. -/
def Lexeme.isOpen : Lexeme → Bool
  | .lineComment body => body.getLast? != some '\n'
  | .symbol sign => sign == ['#'] || sign == ['@'] || sign == ['@', '@']
  | _ => false

section Lexemes

variable {s u r t : Text} {l : Lexeme}

theorem Stops.no_nameTail (stops : Stops t) : ∀ c ∈ t.head?, isNameTail c = false :=
  stops.not_head (by decide)

theorem scanWord_exchange {start : Text} (stops : Stops t)
    (h : scanWord start (s ++ u) = .ok (l, r ++ u)) :
    scanWord start (s ++ t) = .ok (l, r ++ t) := by
  unfold scanWord at h ⊢
  obtain ⟨rfl, rest⟩ := Prod.mk.inj (Except.ok.inj h)
  obtain ⟨taken, dropped⟩ := dropWhile_exchange stops.no_nameTail rest
  rw [taken, dropped]

theorem scanString_exchange {form : StringForm} {quote : Char} {escapes : Bool} {at_ : Text}
    (other : t.head? ≠ some quote) (h : scanString form quote escapes at_ (s ++ u) = .ok (l, r ++ u))
    (at_' : Text) : scanString form quote escapes at_' (s ++ t) = .ok (l, r ++ t) := by
  unfold scanString at h ⊢
  split at h
  · next found =>
    obtain ⟨rfl, rfl⟩ := Prod.mk.inj (Except.ok.inj h)
    rw [quotedBody_exchange other found]
  · cases h

theorem scanRaw_length_add {quote : Char} {rest : Text} (h : scanRaw quote s = .ok (l, rest)) :
    rest.length + 2 ≤ s.length := by
  unfold scanRaw at h
  repeat' split at h
  · next e =>
    cases h
    have := tripledBody_length e
    simp only [List.length_cons]
    omega
  · contradiction
  · cases h
    simp
  · have := scanString_length h
    simp only [List.length_cons] at this ⊢
    omega
  · cases h
    simp
  · contradiction
  · contradiction

theorem scanRaw_exchange {quote : Char} (other : t.head? ≠ some quote)
    (h : scanRaw quote (s ++ u) = .ok (l, r ++ u)) : scanRaw quote (s ++ t) = .ok (l, r ++ t) := by
  have long := scanRaw_length_add h
  rw [List.length_append, List.length_append] at long
  match s with
  | [] | [_] => simp at long; omega
  | [a, b] =>
    have alone : b = quote ∧ l = .string (.raw quote false) [] ∧ r = [] := by
      cases u with
      | nil =>
        simp only [List.cons_append, List.nil_append, scanRaw] at h
        split at h
        · next quoted =>
          obtain ⟨rfl, rest⟩ := Prod.mk.inj (Except.ok.inj h)
          exact ⟨quoted, rfl, (List.append_eq_nil_iff.1 rest.symm).1⟩
        · cases h
      | cons c u =>
        simp only [List.cons_append, List.nil_append, scanRaw] at h
        repeat' split at h
        · next found =>
          obtain ⟨rfl, rfl⟩ := Prod.mk.inj (Except.ok.inj h)
          have := tripledBody_length found
          simp only [List.length_append, List.length_cons] at this
          omega
        · cases h
        · next quoted =>
          obtain ⟨rfl, rest⟩ := Prod.mk.inj (Except.ok.inj h)
          exact ⟨quoted, rfl, List.append_left_eq_self.1 rest.symm⟩
        · next unquoted =>
          unfold scanString at h
          split at h
          · next found =>
            obtain ⟨rfl, rfl⟩ := Prod.mk.inj (Except.ok.inj h)
            exact absurd (quotedBody_singleton found).1 unquoted
          · cases h
    obtain ⟨rfl, rfl, rfl⟩ := alone
    cases t with
    | nil => simp [scanRaw]
    | cons d t =>
      have apart : d ≠ b := fun e => other (congrArg some e)
      simp [scanRaw, apart]
  | a :: b :: c :: s =>
    simp only [List.cons_append, scanRaw] at h ⊢
    split at h
    · next triple =>
      rw [if_pos triple]
      split at h
      · next found =>
        obtain ⟨rfl, rfl⟩ := Prod.mk.inj (Except.ok.inj h)
        rw [tripledBody_exchange found]
      · cases h
    · next noTriple =>
      rw [if_neg noTriple]
      split at h
      · next empty =>
        obtain ⟨rfl, rest⟩ := Prod.mk.inj (Except.ok.inj h)
        have rest : (c :: s) ++ u = r ++ u := rest
        rw [if_pos empty, ← List.append_cancel_right rest]
        rfl
      · next filled =>
        rw [if_neg filled]
        exact scanString_exchange (s := b :: c :: s) other h _

theorem exists_cons_of_head {c : Char} (h : (s ++ u).head? = some c)
    (within : ¬ (s ++ u).tail.length < u.length) : ∃ s', s = c :: s' := by
  cases s with
  | nil =>
    obtain ⟨v, rfl⟩ := List.head?_eq_some_iff.1 h
    simp at within
  | cons d s =>
    cases h
    exact ⟨s, rfl⟩

theorem not_length_lt_of_suffix {w : Text} (h : (r ++ u).length < w.length) :
    ¬ w.length < u.length := by
  rw [List.length_append] at h
  omega

theorem scanDollar_exchange (stops : Stops t) (h : scanDollar (s ++ u) = .ok (l, r ++ u)) :
    scanDollar (s ++ t) = .ok (l, r ++ t) := by
  simp only [scanDollar] at h ⊢
  by_cases dollar : (s ++ u).head? = some '$'
  · rw [if_pos dollar] at h
    split at h
    · next found =>
      obtain ⟨rfl, rfl⟩ := Prod.mk.inj (Except.ok.inj h)
      obtain ⟨s, rfl⟩ := exists_cons_of_head dollar
        (not_length_lt_of_suffix (dollarBody_length found))
      have found : dollarBody false (s ++ u) = _ := found
      simp only [List.cons_append, List.head?_cons, if_true, List.tail_cons,
        dollarBody_exchange found]
    · cases h
  · rw [if_neg dollar] at h
    rw [if_neg (head?_exchange (stops.head?_ne (by decide)) dollar)]
    have long : u.length ≤
        ((s ++ u).dropWhile fun c => Text.isAlphanumeric c || c == '_').length := by
      repeat' split at h
      · next found =>
        obtain ⟨rfl, rfl⟩ := Prod.mk.inj (Except.ok.inj h)
        have := taggedBody_length found
        rw [List.length_tail, List.length_append] at this
        omega
      · cases h
      · have rest := congrArg List.length (Prod.mk.inj (Except.ok.inj h)).2
        rw [List.length_append] at rest
        omega
    obtain ⟨x, beyond⟩ := exists_append_of_suffix (List.dropWhile_suffix _) long
    obtain ⟨tag, beyond'⟩ := dropWhile_exchange
      (stops.not_head (p := fun c => Text.isAlphanumeric c || c == '_') (by decide)) beyond
    rw [beyond] at h
    rw [tag, beyond']
    by_cases closed : (x ++ u).head? = some '$'
    · rw [if_pos closed] at h
      split at h
      · next found =>
        obtain ⟨rfl, rfl⟩ := Prod.mk.inj (Except.ok.inj h)
        obtain ⟨x, rfl⟩ := exists_cons_of_head closed
          (not_length_lt_of_suffix (taggedBody_length found))
        have found : taggedBody _ none (x ++ u) = _ := found
        simp only [List.cons_append, List.head?_cons, if_true, List.tail_cons,
          taggedBody_exchange found]
      · cases h
    · rw [if_neg closed] at h
      obtain ⟨rfl, rest⟩ := Prod.mk.inj (Except.ok.inj h)
      rw [if_neg (head?_exchange (stops.head?_ne (by decide)) closed),
        List.append_cancel_right rest]

def isFreeOfStops (s : Text) : Bool := s.all fun c => c ∉ stops

/-- Nothing without stops is looked for among what stops. -/
theorem isPrefixOf_append_stops {sign : Text} (free : isFreeOfStops sign = true) (ends : Stops t)
    (s : Text) : sign.isPrefixOf (s ++ t) = sign.isPrefixOf s := by
  induction sign generalizing s with
  | nil => rfl
  | cons c sign ih =>
    simp only [isFreeOfStops, List.all_cons, Bool.and_eq_true, decide_eq_true_eq] at free
    obtain ⟨first, later⟩ := free
    cases s with
    | nil =>
      obtain ⟨d, t, stop, rfl⟩ := ends.exists_cons
      have apart : c ≠ d := fun e => first (e ▸ stop)
      simp [List.isPrefixOf, apart]
    | cons d s => simp only [List.cons_append, List.isPrefixOf, ih later s]

theorem longSigns_free : ∀ sign ∈ longSigns, isFreeOfStops sign = true := by decide

theorem find?_of_imp {α : Type} {p q : α → Bool} {as : List α} (h : ∀ a ∈ as, q a = true → p a = true)
    (found : ∀ a, as.find? p = some a → q a = true) : as.find? q = as.find? p := by
  induction as with
  | nil => rfl
  | cons a as ih =>
    obtain ⟨first, h⟩ := List.forall_mem_cons.1 h
    cases hp : p a with
    | true =>
      have hq := found a (List.find?_cons_of_pos hp)
      rw [List.find?_cons_of_pos hp, List.find?_cons_of_pos hq]
    | false =>
      have hp : ¬ p a = true := by simp [hp]
      rw [List.find?_cons_of_neg hp] at found ⊢
      rw [List.find?_cons_of_neg fun hq => hp (first hq), ih h found]

theorem scanSign_exchange {c : Char} (stops : Stops t) (h : scanSign c (s ++ u) = .ok (l, r ++ u)) :
    scanSign c (s ++ t) = .ok (l, r ++ t) := by
  have within (sign : Text)
      (found : (longSigns.find? fun sign => sign.isPrefixOf (c :: (s ++ u))) = some sign) :
      sign.length - 1 ≤ s.length ∧ sign.isPrefixOf (c :: s) = true := by
    simp only [scanSign, found] at h
    have rest := congrArg List.length (Prod.mk.inj (Except.ok.inj h)).2
    have holds := List.find?_some found
    have sub := List.isPrefixOf_iff_prefix.1 holds
    have short := sub.length_le
    simp only [List.length_cons, List.length_append, List.length_drop] at rest short
    have fits : sign.length ≤ (c :: s).length := by
      rw [List.length_cons]
      omega
    have first : c :: s <+: c :: (s ++ u) := List.prefix_append (c :: s) u
    refine ⟨by omega, List.isPrefixOf_iff_prefix.2 ?_⟩
    exact List.prefix_of_prefix_length_le sub first fits
  have before : (longSigns.find? fun sign => sign.isPrefixOf (c :: s)) =
      longSigns.find? fun sign => sign.isPrefixOf (c :: (s ++ u)) := by
    apply find?_of_imp
    · intro sign _ sub
      rw [List.isPrefixOf_iff_prefix] at sub ⊢
      exact sub.trans (List.prefix_append (c :: s) u)
    · exact fun sign found => (within sign found).2
  have same : (longSigns.find? fun sign => sign.isPrefixOf (c :: (s ++ t))) =
      longSigns.find? fun sign => sign.isPrefixOf (c :: (s ++ u)) := by
    have alike (sign : Text) (known : sign ∈ longSigns) :
        sign.isPrefixOf (c :: (s ++ t)) = sign.isPrefixOf (c :: s) :=
      isPrefixOf_append_stops (longSigns_free sign known) stops (c :: s)
    rw [← before]
    apply find?_of_imp
    · exact fun sign known sub => alike sign known ▸ sub
    · intro sign found
      have holds := List.find?_some found
      exact (alike sign (List.mem_of_find?_eq_some found)).trans holds
  unfold scanSign at h ⊢
  rw [same]
  split at h
  · next sign found =>
    obtain ⟨rfl, rest⟩ := Prod.mk.inj (Except.ok.inj h)
    obtain ⟨fits, _⟩ := within sign found
    rw [List.drop_append_of_le_length fits] at rest ⊢
    rw [List.append_cancel_right rest]
  · obtain ⟨rfl, rest⟩ := Prod.mk.inj (Except.ok.inj h)
    rw [List.append_cancel_right rest]

theorem scanSign_length_lt {c d : Char} (known : [c, d] ∈ longSigns) (next : s.head? = some d)
    {rest : Text} (h : scanSign c s = .ok (l, rest)) : rest.length < s.length := by
  obtain ⟨s, rfl⟩ := List.head?_eq_some_iff.1 next
  have long : ∀ sign ∈ longSigns, 2 ≤ sign.length := by decide
  unfold scanSign at h
  split at h
  · next sign found =>
    cases h
    have := long sign (List.mem_of_find?_eq_some found)
    rw [List.length_drop, List.length_cons]
    omega
  · next none =>
    have sub := List.find?_eq_none.1 none [c, d] known
    simp [List.isPrefixOf] at sub

/-- A sign that takes any next character but a space into a word. -/
def scanTaking (sign : Text) : Text → Scanned
  | [] => .ok (.symbol sign, [])
  | c :: s => if c = ' ' then .ok (.symbol sign, c :: s) else scanWord (sign ++ [c]) s

theorem scanHash_eq (s : Text) : scanHash s = scanTaking ['#'] s := by
  cases s <;> rfl

theorem scanAt_at (s : Text) : scanAt ('@' :: s) = scanTaking ['@', '@'] s := by
  cases s <;> rfl

theorem scanAt_other (other : s.head? ≠ some '@') : scanAt s = scanTaking ['@'] s := by
  cases s with
  | nil => rfl
  | cons c s =>
    unfold scanAt
    split
    · contradiction
    · next e => cases e; exact absurd rfl other
    · next e => cases e; exact absurd rfl other
    · next e => cases e; rfl

theorem scanTaking_length {sign rest : Text} (h : scanTaking sign s = .ok (l, rest)) :
    rest.length ≤ s.length := by
  cases s with
  | nil => cases h; exact Nat.le_refl _
  | cons c s =>
    simp only [scanTaking] at h
    split at h
    · cases h; exact Nat.le_refl _
    · exact Nat.le_succ_of_le (scanWord_length h)

theorem scanTaking_exchange {sign : Text} (stops : Stops t) (ends : r = [] → l ≠ .symbol sign)
    (h : scanTaking sign (s ++ u) = .ok (l, r ++ u)) :
    scanTaking sign (s ++ t) = .ok (l, r ++ t) := by
  cases s with
  | nil =>
    cases u with
    | nil =>
      obtain ⟨rfl, rest⟩ := Prod.mk.inj (Except.ok.inj h)
      exact absurd rfl (ends (List.append_eq_nil_iff.1 rest.symm).1)
    | cons c u =>
      simp only [List.nil_append, scanTaking] at h
      split at h
      · obtain ⟨rfl, rest⟩ := Prod.mk.inj (Except.ok.inj h)
        exact absurd rfl (ends (List.append_left_eq_self.1 rest.symm))
      · exact absurd (Nat.lt_succ_of_le (scanWord_length h)) (length_lt_append r (c :: u))
  | cons c s =>
    simp only [List.cons_append, scanTaking] at h ⊢
    split at h
    · next space =>
      obtain ⟨rfl, rest⟩ := Prod.mk.inj (Except.ok.inj h)
      have rest : (c :: s) ++ u = r ++ u := rest
      rw [if_pos space, ← List.append_cancel_right rest]
      rfl
    · next solid =>
      rw [if_neg solid]
      exact scanWord_exchange stops h

theorem scanAt_exchange (stops : Stops t) (alone : r = [] → l ≠ .symbol ['@'])
    (doubled : r = [] → l ≠ .symbol ['@', '@']) (h : scanAt (s ++ u) = .ok (l, r ++ u)) :
    scanAt (s ++ t) = .ok (l, r ++ t) := by
  by_cases second : (s ++ u).head? = some '@'
  · cases s with
    | nil =>
      obtain ⟨u, rfl⟩ := List.head?_eq_some_iff.1 second
      rw [List.nil_append, scanAt_at] at h
      exact absurd (Nat.lt_succ_of_le (scanTaking_length h)) (length_lt_append r ('@' :: u))
    | cons c s =>
      obtain rfl : c = '@' := Option.some.inj second
      rw [List.cons_append, scanAt_at] at h ⊢
      exact scanTaking_exchange stops doubled h
  · rw [scanAt_other second] at h
    rw [scanAt_other (head?_exchange (stops.head?_ne (by decide)) second)]
    exact scanTaking_exchange stops alone h

theorem scanQuotedWord_exchange {quote : Char} (other : t.head? ≠ some quote)
    (h : scanQuotedWord quote (s ++ u) = .ok (l, r ++ u)) :
    scanQuotedWord quote (s ++ t) = .ok (l, r ++ t) := by
  unfold scanQuotedWord at h ⊢
  split at h
  · next found =>
    obtain ⟨rfl, rfl⟩ := Prod.mk.inj (Except.ok.inj h)
    rw [quotedBody_exchange other found]
  · cases h

theorem scanString_opened {form : StringForm} {quote : Char} {escapes : Bool} {at_ : Text}
    (other : t.head? ≠ some quote) (opened : (s ++ u).head? = some quote)
    (h : scanString form quote escapes at_ (s ++ u).tail = .ok (l, r ++ u)) (at_' : Text) :
    (s ++ t).head? = some quote ∧
      scanString form quote escapes at_' (s ++ t).tail = .ok (l, r ++ t) := by
  obtain ⟨s, rfl⟩ := exists_cons_of_head opened (not_length_lt_of_suffix (scanString_length h))
  have h : scanString form quote escapes at_ (s ++ u) = .ok (l, r ++ u) := h
  exact ⟨rfl, scanString_exchange other h at_'⟩

theorem scanRaw_opened {quote : Char} (other : t.head? ≠ some quote)
    (opened : (s ++ u).head? = some quote) (h : scanRaw quote (s ++ u) = .ok (l, r ++ u)) :
    (s ++ t).head? = some quote ∧ scanRaw quote (s ++ t) = .ok (l, r ++ t) := by
  refine ⟨?_, scanRaw_exchange other h⟩
  have long := scanRaw_length_add h
  have within : ¬ (s ++ u).tail.length < u.length := by
    rw [List.length_append] at long
    rw [List.length_tail]
    omega
  obtain ⟨s, rfl⟩ := exists_cons_of_head opened within
  rfl

theorem opened_exchange {quote : Char} {f g : Text → Scanned} (other : t.head? ≠ some quote)
    (opened : (s ++ u).head? = some quote → f (s ++ u) = .ok (l, r ++ u) →
      (s ++ t).head? = some quote ∧ f (s ++ t) = .ok (l, r ++ t))
    (unopened : g (s ++ u) = .ok (l, r ++ u) → g (s ++ t) = .ok (l, r ++ t))
    (h : (if (s ++ u).head? = some quote then f (s ++ u) else g (s ++ u)) = .ok (l, r ++ u)) :
    (if (s ++ t).head? = some quote then f (s ++ t) else g (s ++ t)) = .ok (l, r ++ t) := by
  by_cases next : (s ++ u).head? = some quote
  · rw [if_pos next] at h
    obtain ⟨next', h'⟩ := opened next h
    rw [if_pos next', h']
  · rw [if_neg next] at h
    rw [if_neg (head?_exchange other next)]
    exact unopened h

/-- What `scanLettered` reads of a string after an `E`. -/
def scanEscaped (c : Char) (s : Text) : Scanned :=
  match escapedBody s.tail with
  | some (body, rest) => .ok (.string .escaped body, rest)
  | none => .error ⟨.unterminatedEscapedString, c :: s⟩

theorem scanEscaped_opened {c : Char} (stops : Stops t) (opened : (s ++ u).head? = some '\'')
    (h : scanEscaped c (s ++ u) = .ok (l, r ++ u)) :
    (s ++ t).head? = some '\'' ∧ scanEscaped c (s ++ t) = .ok (l, r ++ t) := by
  unfold scanEscaped at h ⊢
  split at h
  · next found =>
    obtain ⟨rfl, rfl⟩ := Prod.mk.inj (Except.ok.inj h)
    obtain ⟨s, rfl⟩ := exists_cons_of_head opened
      (not_length_lt_of_suffix (escapedBody_length found))
    have found : escapedBody (s ++ u) = _ := found
    simp only [List.cons_append, List.head?_cons, List.tail_cons,
      escapedBody_exchange stops found, and_self]
  · cases h

theorem scanLettered_exchange {c : Char} (stops : Stops t)
    (h : scanLettered c (s ++ u) = .ok (l, r ++ u)) : scanLettered c (s ++ t) = .ok (l, r ++ t) := by
  have single := stops.head?_ne (c := '\'') (by decide)
  have double := stops.head?_ne (c := '"') (by decide)
  have word : scanWord [c] (s ++ u) = .ok (l, r ++ u) → scanWord [c] (s ++ t) = .ok (l, r ++ t) :=
    scanWord_exchange stops
  simp only [scanLettered] at h ⊢
  by_cases bytes : c = 'b' ∨ c = 'B'
  · rw [if_pos bytes] at h ⊢
    exact opened_exchange (f := fun s => scanString (.bytes '\'') '\'' false s s.tail)
      (g := fun s => if s.head? = some '"' then scanString (.bytes '"') '"' false s s.tail
        else scanWord [c] s)
      single (fun o h => scanString_opened single o h _)
      (opened_exchange (f := fun s => scanString (.bytes '"') '"' false s s.tail) double
        (fun o h => scanString_opened double o h _) word) h
  rw [if_neg bytes] at h ⊢
  by_cases raw : c = 'r' ∨ c = 'R'
  · rw [if_pos raw] at h ⊢
    exact opened_exchange (g := fun s => if s.head? = some '"' then scanRaw '"' s
        else scanWord [c] s)
      single (scanRaw_opened single) (opened_exchange double (scanRaw_opened double) word) h
  rw [if_neg raw] at h ⊢
  by_cases national : c = 'n' ∨ c = 'N'
  · rw [if_pos national] at h ⊢
    exact opened_exchange (f := fun s => scanString .national '\'' true s s.tail) single
      (fun o h => scanString_opened single o h _) word h
  rw [if_neg national] at h ⊢
  by_cases hex : c = 'x' ∨ c = 'X'
  · rw [if_pos hex] at h ⊢
    exact opened_exchange (f := fun s => scanString .hex '\'' true s s.tail) single
      (fun o h => scanString_opened single o h _) word h
  rw [if_neg hex] at h ⊢
  by_cases escaped : c = 'e' ∨ c = 'E'
  · rw [if_pos escaped] at h ⊢
    exact opened_exchange (f := scanEscaped c) single (scanEscaped_opened stops) word h
  rw [if_neg escaped] at h ⊢
  have coded : ['&', '\''].isPrefixOf (s ++ t) = ['&', '\''].isPrefixOf s :=
    isPrefixOf_append_stops (by decide) stops s
  by_cases unicode : (c = 'u' ∨ c = 'U') ∧ ['&', '\''].isPrefixOf (s ++ u) = true
  · rw [if_pos unicode] at h
    split at h
    · next body rest found =>
      obtain ⟨rfl, rfl⟩ := Prod.mk.inj (Except.ok.inj h)
      have short := unicodeBody_length found
      rw [List.length_append, List.length_drop, List.length_append] at short
      rcases s with _ | ⟨a, _ | ⟨b, s⟩⟩
      · simp at short; omega
      · simp at short; omega
      · obtain ⟨letter, sub⟩ := unicode
        have marked : (c = 'u' ∨ c = 'U') ∧ ['&', '\''].isPrefixOf (a :: b :: s ++ t) = true :=
          ⟨letter, by simpa [List.isPrefixOf] using sub⟩
        have found : unicodeBody (s ++ u) = _ := found
        have found' : unicodeBody ((a :: b :: s ++ t).drop 2) = _ := unicodeBody_exchange stops found
        rw [if_pos marked, found']
    · cases h
  · rw [if_neg unicode] at h
    have other : ¬ ((c = 'u' ∨ c = 'U') ∧ ['&', '\''].isPrefixOf (s ++ t) = true) := by
      rintro ⟨letter, sub⟩
      rw [coded, List.isPrefixOf_iff_prefix] at sub
      exact unicode ⟨letter, List.isPrefixOf_iff_prefix.2 (sub.trans (List.prefix_append s u))⟩
    rw [if_neg other]
    exact word h

theorem scanComment?_exchange {c : Char} (ends : r = [] → l.isOpen = false)
    (h : scanComment? c (s ++ u) = some (.ok (l, r ++ u))) :
    scanComment? c (s ++ t) = some (.ok (l, r ++ t)) := by
  unfold scanComment? at h ⊢
  by_cases line : c = '-' ∧ (s ++ u).head? = some '-'
  · rw [if_pos line] at h
    obtain ⟨rfl, rest⟩ := Prod.mk.inj (Except.ok.inj (Option.some.inj h))
    have whole := congrArg List.length rest
    have short := List.length_dropWhile_le (· != '\n') (s ++ u).tail
    rw [List.length_tail, List.length_append] at whole
    obtain ⟨s, rfl⟩ := exists_cons_of_head line.2 (by omega)
    have short : ((s ++ u).dropWhile (· != '\n')).length ≤ (s ++ u).length := short
    have rest : ((s ++ u).dropWhile (· != '\n')).tail = r ++ u := rest
    have whole : ((s ++ u).dropWhile (· != '\n')).length - 1 = r.length + u.length := whole
    obtain ⟨x, beyond⟩ := exists_append_of_suffix
      (List.dropWhile_suffix (l := s ++ u) (· != '\n')) (by omega)
    cases x with
    | nil =>
      -- the text ends before the comment does
      rw [beyond, List.nil_append] at rest
      cases u with
      | cons c u => exact absurd (rest ▸ Nat.lt_succ_self u.length) (length_lt_append r (c :: u))
      | nil =>
        have empty : r = [] := (List.append_eq_nil_iff.1 rest.symm).1
        have ended := ends empty
        simp only [List.cons_append, List.tail_cons, beyond, Lexeme.isOpen] at ended
        have last : '\n' ∈ (s ++ []).takeWhile (· != '\n') := by
          apply List.mem_of_getLast?
          simpa using ended
        exact absurd (List.all_eq_true.1 List.all_takeWhile _ last) (by decide)
    | cons d x =>
      have filled : d :: x = [] → ∀ c ∈ t.head?, (c != '\n') = false := by simp
      obtain ⟨taken, dropped⟩ := dropWhile_exchange_of filled beyond
      rw [beyond] at rest
      have rest : x ++ u = r ++ u := rest
      have line' : c = '-' ∧ ('-' :: s ++ t).head? = some '-' := ⟨line.1, rfl⟩
      rw [if_pos line', List.cons_append, List.cons_append, List.tail_cons, List.tail_cons, taken,
        dropped, beyond, ← List.append_cancel_right rest]
      rfl
  · rw [if_neg line] at h
    by_cases block : c = '/' ∧ (s ++ u).head? = some '*'
    · rw [if_pos block] at h
      obtain ⟨rfl, star⟩ := block
      have h := Option.some.inj h
      split at h
      · next found =>
        obtain ⟨rfl, rfl⟩ := Prod.mk.inj (Except.ok.inj h)
        obtain ⟨s, rfl⟩ := exists_cons_of_head star
          (not_length_lt_of_suffix (commentBody_length found))
        have found : commentBody 1 ' ' (s ++ u) = _ := found
        simp [commentBody_exchange found]
      · cases h
    · rw [if_neg block] at h
      cases h

theorem scanComment?_eq_none_iff {c : Char} : scanComment? c s = none ↔
    ¬ (c = '-' ∧ s.head? = some '-') ∧ ¬ (c = '/' ∧ s.head? = some '*') := by
  unfold scanComment?
  by_cases line : c = '-' ∧ s.head? = some '-'
  · simp [line]
  · by_cases block : c = '/' ∧ s.head? = some '*'
    · simp [block]
    · simp [line, block]

theorem scanComment?_none_exchange {c : Char} (stops : Stops t)
    (h : scanComment? c (s ++ u) = none) : scanComment? c (s ++ t) = none := by
  rw [scanComment?_eq_none_iff] at h ⊢
  obtain ⟨line, block⟩ := h
  constructor
  · rintro ⟨dash, next⟩
    exact head?_exchange (stops.head?_ne (by decide)) (fun e => line ⟨dash, e⟩) next
  · rintro ⟨slash, next⟩
    exact head?_exchange (stops.head?_ne (by decide)) (fun e => block ⟨slash, e⟩) next

theorem scanOther_hash (s : Text) : scanOther '#' s =
    if s.head? = some '-' ∨ s.head? = some '>' then scanSign '#' s else scanHash s := by
  unfold scanOther
  by_cases long : s.head? = some '-' ∨ s.head? = some '>'
  · rw [if_pos long, if_neg fun alone => long.elim alone.2.1 alone.2.2,
      if_neg fun at_ => absurd at_.1 (by decide)]
    rfl
  · rw [if_neg long, if_pos ⟨rfl, not_or.1 long⟩]

theorem scanOther_at (s : Text) : scanOther '@' s =
    if s.head? = some '>' ∨ s.head? = some '?' then scanSign '@' s else scanAt s := by
  unfold scanOther
  rw [if_neg fun hash => absurd hash.1 (by decide)]
  by_cases long : s.head? = some '>' ∨ s.head? = some '?'
  · rw [if_pos long, if_neg fun alone => long.elim alone.2.1 alone.2.2]
    rfl
  · rw [if_neg long, if_pos ⟨rfl, not_or.1 long⟩]

/-- Of two signs that can be read as one, neither is exchanged. -/
theorem scanSign_or_exchange {c d e : Char} {f : Text → Scanned} (stops : Stops t)
    (first : [c, d] ∈ longSigns) (second : [c, e] ∈ longSigns) (noFirst : d ∉ Sql.stops)
    (noSecond : e ∉ Sql.stops)
    (alone : f (s ++ u) = .ok (l, r ++ u) → f (s ++ t) = .ok (l, r ++ t))
    (h : (if (s ++ u).head? = some d ∨ (s ++ u).head? = some e then scanSign c (s ++ u)
      else f (s ++ u)) = .ok (l, r ++ u)) :
    (if (s ++ t).head? = some d ∨ (s ++ t).head? = some e then scanSign c (s ++ t)
      else f (s ++ t)) = .ok (l, r ++ t) := by
  by_cases long : (s ++ u).head? = some d ∨ (s ++ u).head? = some e
  · rw [if_pos long] at h
    have shorter : (r ++ u).length < (s ++ u).length := by
      rcases long with next | next
      · exact scanSign_length_lt first next h
      · exact scanSign_length_lt second next h
    cases s with
    | nil => exact absurd shorter (length_lt_append r u)
    | cons a s =>
      have long' : ((a :: s) ++ t).head? = some d ∨ ((a :: s) ++ t).head? = some e := long
      rw [if_pos long']
      exact scanSign_exchange stops h
  · rw [if_neg long] at h
    obtain ⟨noD, noE⟩ := not_or.1 long
    rw [if_neg (not_or.2 ⟨head?_exchange (stops.head?_ne noFirst) noD,
      head?_exchange (stops.head?_ne noSecond) noE⟩)]
    exact alone h

theorem scanOther_exchange {c : Char} (stops : Stops t) (ends : r = [] → l.isOpen = false)
    (h : scanOther c (s ++ u) = .ok (l, r ++ u)) : scanOther c (s ++ t) = .ok (l, r ++ t) := by
  have closed {sign : Text} (alone : (Lexeme.symbol sign).isOpen = true) (empty : r = []) :
      l ≠ .symbol sign := by
    rintro rfl
    rw [ends empty] at alone
    cases alone
  by_cases hash : c = '#'
  · subst hash
    rw [scanOther_hash] at h ⊢
    refine scanSign_or_exchange stops (by decide) (by decide) (by decide) (by decide) ?_ h
    rw [scanHash_eq, scanHash_eq]
    exact scanTaking_exchange stops (closed rfl)
  by_cases at_ : c = '@'
  · subst at_
    rw [scanOther_at] at h ⊢
    exact scanSign_or_exchange stops (by decide) (by decide) (by decide) (by decide)
      (scanAt_exchange stops (closed rfl) (closed rfl)) h
  simp only [scanOther, hash, at_, false_and, if_false] at h ⊢
  split at h
  · next placeholder =>
    obtain ⟨rfl, rest⟩ := Prod.mk.inj (Except.ok.inj h)
    obtain ⟨taken, dropped⟩ := dropWhile_exchange
      (stops.not_head (p := Text.isNumeric) (by decide)) rest
    rw [if_pos placeholder, taken, dropped]
  next noPlaceholder =>
  rw [if_neg noPlaceholder]
  split at h
  · next dollar =>
    rw [if_pos dollar]
    exact scanDollar_exchange stops h
  next noDollar =>
  rw [if_neg noDollar]
  split at h
  · next name =>
    rw [if_pos name]
    exact scanWord_exchange stops h
  next noName =>
  rw [if_neg noName]
  split at h
  · next blank =>
    obtain ⟨rfl, rest⟩ := Prod.mk.inj (Except.ok.inj h)
    rw [if_pos blank, List.append_cancel_right rest]
  next noBlank =>
  rw [if_neg noBlank]
  exact scanSign_exchange stops h

theorem carriage_exchange (line : s = [] → t.head? ≠ some '\n')
    (h : (if (s ++ u).head? = some '\n' then (s ++ u).tail else s ++ u) = r ++ u) :
    (if (s ++ t).head? = some '\n' then (s ++ t).tail else s ++ t) = r ++ t := by
  cases s with
  | nil =>
    rw [List.nil_append] at h ⊢
    split at h
    · next feed =>
      obtain ⟨u, rfl⟩ := List.head?_eq_some_iff.1 feed
      have whole := congrArg List.length h
      simp only [List.tail_cons, List.length_append, List.length_cons] at whole
      omega
    · obtain rfl : r = [] := List.append_left_eq_self.1 h.symm
      rw [if_neg (line rfl)]
      rfl
  | cons c s =>
    simp only [List.cons_append, List.head?_cons, List.tail_cons, Option.some.injEq] at h ⊢
    by_cases feed : c = '\n'
    · rw [if_pos feed] at h ⊢
      rw [List.append_cancel_right h]
    · rw [if_neg feed] at h ⊢
      have rest : (c :: s) ++ u = r ++ u := h
      rw [← List.append_cancel_right rest]
      rfl

/-- What follows a lexeme can be exchanged for what begins with a stop. Two exceptions are the
lexemes that are open to it, and a carriage return, which a line feed belongs to. -/
theorem scan_exchange {c : Char} (stops : Stops t) (ends : r = [] → l.isOpen = false)
    (line : c = '\r' → s = [] → t.head? ≠ some '\n')
    (h : scan c (s ++ u) = .ok (l, r ++ u)) : scan c (s ++ t) = .ok (l, r ++ t) := by
  unfold scan at h ⊢
  split at h
  · next blank =>
    obtain ⟨rfl, rest⟩ := Prod.mk.inj (Except.ok.inj h)
    rw [if_pos blank, List.append_cancel_right rest]
  next noBlank =>
  rw [if_neg noBlank]
  split at h
  · next carriage =>
    rw [if_pos carriage]
    obtain ⟨rfl, rest⟩ := Prod.mk.inj (Except.ok.inj h)
    rw [carriage_exchange (line carriage) rest]
  next noCarriage =>
  rw [if_neg noCarriage]
  split at h
  · next letter =>
    rw [if_pos letter]
    exact scanLettered_exchange stops h
  next noLetter =>
  rw [if_neg noLetter]
  split at h
  · next quote =>
    rw [if_pos quote]
    exact scanString_exchange (stops.head?_ne (by decide)) h _
  next noQuote =>
  rw [if_neg noQuote]
  split at h
  · next quoted =>
    rw [if_pos quoted]
    refine scanQuotedWord_exchange (stops.head?_ne ?_) h
    rcases quoted with rfl | rfl <;> decide
  next noName =>
  rw [if_neg noName]
  split at h
  · next number =>
    rw [if_pos number]
    exact scanNumber_exchange (s := c :: s) stops h
  next noNumber =>
  rw [if_neg noNumber]
  cases comment : scanComment? c (s ++ u) with
  | none =>
    rw [comment] at h
    rw [scanComment?_none_exchange stops comment]
    exact scanOther_exchange stops ends h
  | some found =>
    rw [comment] at h
    have found : found = .ok (l, r ++ u) := h
    rw [found] at comment
    rw [scanComment?_exchange ends comment]
    rfl

end Lexemes

end SqlReview.Sql
