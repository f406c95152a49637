import SqlReview.Sql.Lexeme

/-!
The bodies of quoted things. Each reader starts right after the opening and gives the body with
its escapes resolved and the text after the closing; `none` says that the closing is missing.
-/
namespace SqlReview.Sql

def isOctalDigit (c : Char) : Bool := '0' ≤ c && c ≤ '7'

/-- A backslash escape in a national or hexadecimal string: an unknown letter stands for itself. -/
def backslashed (c : Char) : Char :=
  match c with
  | '0' => '\x00'
  | 'a' => '\x07'
  | 'b' => '\x08'
  | 'f' => '\x0c'
  | 'n' => '\n'
  | 'r' => '\r'
  | 't' => '\t'
  | 'Z' => '\x1a'
  | c => c

def consBody (c : Char) (found : Option (Text × Text)) : Option (Text × Text) :=
  found.map fun (body, rest) => (c :: body, rest)

theorem consBody_eq_some {c : Char} {found : Option (Text × Text)} {body rest : Text}
    (h : consBody c found = some (body, rest)) : ∃ b, found = some (b, rest) := by
  simp only [consBody, Option.map_eq_some_iff] at h
  obtain ⟨⟨b, r⟩, h, e⟩ := h
  cases e
  exact ⟨b, h⟩

/-- Up to a quote that is not doubled; a doubled quote is one quote of the body. -/
def quotedBody (quote : Char) (escapes : Bool) : Text → Option (Text × Text)
  | [] => none
  | [c] => if c = quote then some ([], []) else none
  | c :: d :: s =>
    if c = quote then
      if d = quote then consBody c (quotedBody quote escapes s) else some ([], d :: s)
    else if escapes && c == '\\' then consBody (backslashed d) (quotedBody quote escapes s)
    else consBody c (quotedBody quote escapes (d :: s))

theorem quotedBody_length {quote : Char} {escapes : Bool} {s body rest : Text}
    (h : quotedBody quote escapes s = some (body, rest)) : rest.length < s.length := by
  fun_induction quotedBody quote escapes s generalizing body rest with
  | case1 => contradiction
  | case2 => cases h; simp
  | case3 => contradiction
  | case4 s ih | case6 _ _ s _ _ ih =>
    obtain ⟨b, h⟩ := consBody_eq_some h
    have := ih h
    simp only [List.length_cons]
    omega
  | case5 => cases h; simp
  | case7 _ _ s _ _ ih =>
    obtain ⟨b, h⟩ := consBody_eq_some h
    have := ih h
    simp only [List.length_cons] at this ⊢
    omega

def tripledBody (quote : Char) : Text → Option (Text × Text)
  | c :: d :: e :: s =>
    if c = quote ∧ d = quote ∧ e = quote then some ([], s)
    else consBody c (tripledBody quote (d :: e :: s))
  | _ => none

theorem tripledBody_length {quote : Char} {s body rest : Text}
    (h : tripledBody quote s = some (body, rest)) : rest.length < s.length := by
  fun_induction tripledBody quote s generalizing body rest with
  | case1 c d e s _ => cases h; simp only [List.length_cons]; omega
  | case2 c d e s _ ih =>
    obtain ⟨b, h⟩ := consBody_eq_some h
    have := ih h
    simp only [List.length_cons] at this ⊢
    omega
  | case3 => contradiction

/-- Comments nest. `depth` counts the open ones and `last` is the character just read; the body
comes with the star of its closing. -/
def commentBody : (depth : Nat) → (last : Char) → Text → Option (Text × Text)
  | _, _, [] => none
  | depth, last, c :: s =>
    if last = '/' ∧ c = '*' then consBody c (commentBody (depth + 1) c s)
    else if last = '*' ∧ c = '/' then
      if depth ≤ 1 then some ([], s) else consBody c (commentBody (depth - 1) c s)
    else consBody c (commentBody depth c s)

theorem commentBody_length {depth : Nat} {last : Char} {s body rest : Text}
    (h : commentBody depth last s = some (body, rest)) : rest.length < s.length := by
  induction s generalizing depth last body with
  | nil => simp [commentBody] at h
  | cons c s ih =>
    simp only [commentBody] at h
    repeat' split at h
    all_goals first
      | (cases h; simp)
      | (obtain ⟨b, h⟩ := consBody_eq_some h
         exact Nat.lt_succ_of_lt (ih h))

/-- Up to two dollar signs; a dollar sign alone stays in the body. -/
def dollarBody : (afterDollar : Bool) → Text → Option (Text × Text)
  | _, [] => none
  | false, c :: s => if c = '$' then dollarBody true s else consBody c (dollarBody false s)
  | true, c :: s =>
    if c = '$' then some ([], s) else consBody '$' (consBody c (dollarBody false s))

theorem dollarBody_length {afterDollar : Bool} {s body rest : Text}
    (h : dollarBody afterDollar s = some (body, rest)) : rest.length < s.length := by
  induction s generalizing afterDollar body with
  | nil => cases afterDollar <;> simp [dollarBody] at h
  | cons c s ih =>
    cases afterDollar <;> simp only [dollarBody] at h <;> split at h
    · exact Nat.lt_succ_of_lt (ih h)
    · obtain ⟨b, h⟩ := consBody_eq_some h
      exact Nat.lt_succ_of_lt (ih h)
    · cases h; simp
    · obtain ⟨b, h⟩ := consBody_eq_some h
      obtain ⟨b, h⟩ := consBody_eq_some h
      exact Nat.lt_succ_of_lt (ih h)

/-- Up to the closing tag. `expected` is what is left to read of a closing that has begun. A
character that breaks it off belongs to the body, even if it is a dollar sign; the body comes
with the closing but for its last dollar sign. -/
def taggedBody (tag : Text) : (expected : Option Text) → Text → Option (Text × Text)
  | _, [] => none
  | none, c :: s =>
    consBody c (taggedBody tag (if c = '$' then some tag else none) s)
  | some [], c :: s => if c = '$' then some ([], s) else consBody c (taggedBody tag none s)
  | some (t :: left), c :: s =>
    consBody c (taggedBody tag (if c = t then some left else none) s)

theorem taggedBody_length {tag : Text} {expected : Option Text} {s body rest : Text}
    (h : taggedBody tag expected s = some (body, rest)) : rest.length < s.length := by
  induction s generalizing expected body with
  | nil => simp [taggedBody] at h
  | cons c s ih =>
    match expected with
    | none | some (_ :: _) =>
      simp only [taggedBody] at h
      obtain ⟨b, h⟩ := consBody_eq_some h
      exact Nat.lt_succ_of_lt (ih h)
    | some [] =>
      simp only [taggedBody] at h
      split at h
      · cases h; simp
      · obtain ⟨b, h⟩ := consBody_eq_some h
        exact Nat.lt_succ_of_lt (ih h)

def asciiCode? (n : Nat) : Option Char :=
  let code := n % 256
  if code = 0 ∨ 127 < code then none else some (Char.ofNat code)

def codePoint? (n : Nat) : Option Char :=
  if h : n.isValidChar then some (Char.ofNatAux n h) else none

def unsigned : Text → Text
  | '+' :: d :: digits => d :: digits
  | digits => digits

/-- A hexadecimal number of exactly `width` characters, the first of which may be a plus sign. -/
def hexEscape? (width : Nat) (s : Text) : Option (Char × Text) :=
  let digits := unsigned (s.take width)
  if (s.take width).length = width ∧ digits.all Text.isHexDigit then
    (codePoint? (Text.valueIn 16 digits)).bind fun c =>
      if c.toNat = 0 then none else some (c, s.drop width)
  else none

def controlOf? (c : Char) : Option Char :=
  if c = 'b' then some '\x08'
  else if c = 'f' then some '\x0c'
  else if c = 'n' then some '\n'
  else if c = 'r' then some '\r'
  else if c = 't' then some '\t'
  else none

def escape? : Text → Option (Char × Text)
  | [] => none
  | c :: s =>
    match controlOf? c with
    | some control => some (control, s)
    | none =>
      if c = 'u' then hexEscape? 4 s
      else if c = 'U' then hexEscape? 8 s
      else if c = 'x' then
        let digits := (s.take 2).takeWhile Text.isHexDigit
        if digits.isEmpty then some ('x', s)
        else (asciiCode? (Text.valueIn 16 digits)).map fun d => (d, s.drop digits.length)
      else if isOctalDigit c then
        let digits := (s.take 2).takeWhile isOctalDigit
        (asciiCode? (Text.valueIn 8 (c :: digits))).map fun d => (d, s.drop digits.length)
      else if c.toNat = 0 then none
      else some (c, s)

theorem hexEscape?_length {width : Nat} {s rest : Text} {c : Char}
    (h : hexEscape? width s = some (c, rest)) : rest.length ≤ s.length := by
  simp only [hexEscape?] at h
  split at h
  · simp only [Option.bind_eq_some_iff] at h
    obtain ⟨d, _, h⟩ := h
    split at h
    · contradiction
    · cases h
      simp
  · contradiction

theorem escape?_length {s rest : Text} {c : Char} (h : escape? s = some (c, rest)) :
    rest.length < s.length := by
  cases s with
  | nil => simp [escape?] at h
  | cons d s =>
    simp only [escape?] at h
    repeat' split at h
    all_goals first
      | contradiction
      | exact Nat.lt_succ_of_le (hexEscape?_length h)
      | (cases h; simp only [List.length_cons]; omega)
      | (simp only [Option.map_eq_some_iff] at h
         obtain ⟨e, _, h⟩ := h
         cases h
         simp only [List.length_cons, List.length_drop]
         omega)

/-- Up to a quote that is neither doubled nor escaped; a fault in an escape ends the reading. -/
def escapedBody (s : Text) : Option (Text × Text) :=
  match s with
  | [] => none
  | '\'' :: '\'' :: r => consBody '\'' (escapedBody r)
  | '\'' :: r => some ([], r)
  | '\\' :: r =>
    match h : escape? r with
    | none => none
    | some (c, r') =>
      have := escape?_length h
      consBody c (escapedBody r')
  | c :: r => consBody c (escapedBody r)
termination_by s.length
decreasing_by all_goals (simp only [List.length_cons]; omega)

theorem escapedBody_length {s body rest : Text} (h : escapedBody s = some (body, rest)) :
    rest.length < s.length := by
  fun_induction escapedBody s generalizing body rest with
  | case1 => contradiction
  | case2 r ih =>
    obtain ⟨b, h⟩ := consBody_eq_some h
    have := ih h
    simp only [List.length_cons]
    omega
  | case3 => cases h; simp
  | case4 => contradiction
  | case5 r c r' e _ ih =>
    obtain ⟨b, h⟩ := consBody_eq_some h
    have := ih h
    have := escape?_length e
    simp only [List.length_cons]
    omega
  | case6 c r _ _ _ ih =>
    obtain ⟨b, h⟩ := consBody_eq_some h
    exact Nat.lt_succ_of_lt (ih h)

/-- Exactly `count` more hexadecimal digits of a code point whose digits so far spell `value`. -/
def hexDigits : (count : Nat) → (value : Nat) → Text → Except Fault (Char × Text)
  | 0, value, s =>
    match codePoint? value with
    | some c => .ok (c, s)
    | none => .error ⟨.notCharacter value, s⟩
  | _ + 1, _, [] => .error ⟨.endInHexDigits, []⟩
  | count + 1, value, c :: s =>
    if Text.isHexDigit c then hexDigits count (value * 16 + Text.digitValue c) s
    else .error ⟨.notHexDigit c, s⟩

theorem hexDigits_length {count value : Nat} {s rest : Text} {c : Char}
    (h : hexDigits count value s = .ok (c, rest)) : rest.length ≤ s.length := by
  induction count generalizing value s with
  | zero =>
    simp only [hexDigits] at h
    split at h
    · cases h; exact Nat.le_refl _
    · contradiction
  | succ count ih =>
    cases s with
    | nil => simp [hexDigits] at h
    | cons d s =>
      simp only [hexDigits] at h
      split at h
      · exact Nat.le_succ_of_le (ih h)
      · contradiction

def consRead (c : Char) (found : Except Fault (Text × Text)) :
    Except Fault (Text × Text) :=
  found.map fun (body, rest) => (c :: body, rest)

/-- Up to a quote that is not doubled; a backslash begins a code point or stands doubled. -/
def unicodeBody (s : Text) : Except Fault (Text × Text) :=
  match s with
  | [] => .error ⟨.unterminatedUnicodeString, []⟩
  | '\'' :: '\'' :: r => consRead '\'' (unicodeBody r)
  | '\'' :: r => .ok ([], r)
  | '\\' :: '\\' :: r => consRead '\\' (unicodeBody r)
  | '\\' :: '+' :: r =>
    match h : hexDigits 6 0 r with
    | .error fault => .error fault
    | .ok (c, r') =>
      have := hexDigits_length h
      consRead c (unicodeBody r')
  | '\\' :: r =>
    match h : hexDigits 4 0 r with
    | .error fault => .error fault
    | .ok (c, r') =>
      have := hexDigits_length h
      consRead c (unicodeBody r')
  | c :: r => consRead c (unicodeBody r)
termination_by s.length
decreasing_by all_goals (simp only [List.length_cons]; omega)

theorem consRead_eq_ok {c : Char} {found : Except Fault (Text × Text)} {body rest : Text}
    (h : consRead c found = .ok (body, rest)) : ∃ b, found = .ok (b, rest) := by
  cases found with
  | error => simp [consRead, Except.map] at h
  | ok p =>
    simp only [consRead, Except.map, Except.ok.injEq, Prod.mk.injEq] at h
    exact ⟨p.1, by rw [← h.2]⟩

theorem unicodeBody_length {s body rest : Text} (h : unicodeBody s = .ok (body, rest)) :
    rest.length < s.length := by
  fun_induction unicodeBody s generalizing body rest with
  | case1 => contradiction
  | case2 r ih | case4 r ih =>
    obtain ⟨b, h⟩ := consRead_eq_ok h
    have := ih h
    simp only [List.length_cons]
    omega
  | case3 => cases h; simp
  | case5 | case7 => contradiction
  | case6 r c r' e _ ih | case8 r _ _ c r' e _ ih =>
    obtain ⟨b, h⟩ := consRead_eq_ok h
    have := ih h
    have := hexDigits_length e
    simp only [List.length_cons]
    omega
  | case9 c r _ _ _ _ _ ih =>
    obtain ⟨b, h⟩ := consRead_eq_ok h
    exact Nat.lt_succ_of_lt (ih h)

end SqlReview.Sql
