import SqlReview.Json.Numeral

/-!
Reading JSON text in two steps: the text is cut into lexemes, and these are put together by a
machine that keeps the arrays and objects still open on a stack.
-/
namespace SqlReview.Json

inductive Lexeme where
  | openArray
  | closeArray
  | openObject
  | closeObject
  | comma
  | colon
  | string (s : Text)
  | scalar (j : Json)

def isSpace (c : Char) : Bool := c == ' ' || c == '\n' || c == '\r' || c == '\t'

def hex4? : Text → Option (Nat × Text)
  | a :: b :: c :: d :: s =>
    if [a, b, c, d].all Text.isHexDigit then some (Text.valueIn 16 [a, b, c, d], s) else none
  | _ => none

theorem hex4?_length {s rest : Text} {n : Nat} (h : hex4? s = some (n, rest)) :
    rest.length + 4 = s.length := by
  unfold hex4? at h
  split at h
  · split at h
    · cases h; simp
    · contradiction
  · contradiction

/-- A code point in one or two escapes of sixteen bits; half of a pair is none. -/
def unicodeEscape? (s : Text) : Option (Char × Text) :=
  (hex4? s).bind fun (high, rest) =>
    if 0xD800 ≤ high ∧ high ≤ 0xDBFF then
      match rest with
      | '\\' :: 'u' :: s =>
        (hex4? s).bind fun (low, rest) =>
          if 0xDC00 ≤ low ∧ low ≤ 0xDFFF then
            some (Char.ofNat (0x10000 + (high - 0xD800) * 0x400 + (low - 0xDC00)), rest)
          else none
      | _ => none
    else if 0xDC00 ≤ high ∧ high ≤ 0xDFFF then none
    else some (Char.ofNat high, rest)

def escape? : Text → Option (Char × Text)
  | [] => none
  | c :: s =>
    match c with
    | '"' | '\\' | '/' => some (c, s)
    | 'b' => some ('\x08', s)
    | 'f' => some ('\x0c', s)
    | 'n' => some ('\n', s)
    | 'r' => some ('\r', s)
    | 't' => some ('\t', s)
    | 'u' => unicodeEscape? s
    | _ => none

theorem unicodeEscape?_length {s rest : Text} {c : Char}
    (h : unicodeEscape? s = some (c, rest)) : rest.length < s.length := by
  simp only [unicodeEscape?, Option.bind_eq_some_iff] at h
  obtain ⟨⟨high, r⟩, h₁, h⟩ := h
  have first := hex4?_length h₁
  split at h
  · split at h
    · next s' e =>
      simp only [Option.bind_eq_some_iff] at h
      obtain ⟨⟨low, r'⟩, h₂, h⟩ := h
      have second := hex4?_length h₂
      split at h
      · simp only [Option.some.injEq, Prod.mk.injEq] at h
        obtain ⟨_, rfl⟩ := h
        simp only at e
        simp only [e, List.length_cons] at first
        omega
      · contradiction
    · contradiction
  · split at h
    · contradiction
    · simp only [Option.some.injEq, Prod.mk.injEq] at h
      obtain ⟨_, rfl⟩ := h
      omega

theorem escape?_length {s rest : Text} {c : Char} (h : escape? s = some (c, rest)) :
    rest.length < s.length := by
  unfold escape? at h
  repeat' split at h
  all_goals first
    | contradiction
    | (cases h; simp)
    | exact Nat.lt_succ_of_lt (unicodeEscape?_length h)

def stringBody? (s : Text) : Option (Text × Text) :=
  match s with
  | [] => none
  | '"' :: s => some ([], s)
  | '\\' :: s =>
    match h : escape? s with
    | none => none
    | some (c, rest) =>
      have := escape?_length h
      (stringBody? rest).map fun (body, after) => (c :: body, after)
  | c :: s =>
    if c.toNat < 32 then none
    else (stringBody? s).map fun (body, after) => (c :: body, after)
termination_by s.length
decreasing_by all_goals (simp only [List.length_cons]; omega)

theorem stringBody?_length {s body rest : Text} (h : stringBody? s = some (body, rest)) :
    rest.length < s.length := by
  fun_induction stringBody? s generalizing body rest with
  | case1 => contradiction
  | case2 => cases h; simp
  | case3 => contradiction
  | case4 s c r e _ ih =>
    simp only [Option.map_eq_some_iff] at h
    obtain ⟨⟨b, r'⟩, h, e'⟩ := h
    cases e'
    have := ih h
    have := escape?_length e
    simp only [List.length_cons]
    omega
  | case5 => contradiction
  | case6 c s _ _ _ ih =>
    simp only [Option.map_eq_some_iff] at h
    obtain ⟨⟨b, r'⟩, h, e'⟩ := h
    cases e'
    exact Nat.lt_succ_of_lt (ih h)

def lexeme? (c : Char) (s : Text) : Option (Lexeme × Text) :=
  match c with
  | '[' => some (.openArray, s)
  | ']' => some (.closeArray, s)
  | '\x7b' => some (.openObject, s)
  | '\x7d' => some (.closeObject, s)
  | ',' => some (.comma, s)
  | ':' => some (.colon, s)
  | '"' => (stringBody? s).map fun (body, rest) => (.string body, rest)
  | 'n' => if ['u', 'l', 'l'].isPrefixOf s then some (.scalar .null, s.drop 3) else none
  | 't' => if ['r', 'u', 'e'].isPrefixOf s then some (.scalar (.bool true), s.drop 3) else none
  | 'f' =>
    if ['a', 'l', 's', 'e'].isPrefixOf s then some (.scalar (.bool false), s.drop 4) else none
  | c => (Numeral.read? (c :: s)).map fun (n, rest) => (.scalar (.number n), rest)

theorem lexeme?_length {c : Char} {s rest : Text} {l : Lexeme}
    (h : lexeme? c s = some (l, rest)) : rest.length ≤ s.length := by
  unfold lexeme? at h
  split at h
  case h_7 =>
    simp only [Option.map_eq_some_iff] at h
    obtain ⟨⟨b, r⟩, h, e⟩ := h
    cases e
    exact Nat.le_of_lt (stringBody?_length h)
  case h_11 =>
    simp only [Option.map_eq_some_iff] at h
    obtain ⟨⟨n, r⟩, h, e⟩ := h
    cases e
    exact Nat.le_of_lt_succ (Numeral.read?_length h)
  all_goals first
    | (cases h; exact Nat.le_refl _)
    | (split at h
       · cases h; simp
       · contradiction)

def lexemes? (s : Text) : Option (List Lexeme) :=
  match s with
  | [] => some []
  | c :: s =>
    if isSpace c then lexemes? s
    else
      match h : lexeme? c s with
      | none => none
      | some (l, rest) =>
        have := lexeme?_length h
        (lexemes? rest).map (l :: ·)
termination_by s.length
decreasing_by all_goals (simp only [List.length_cons]; omega)

/-- An array or object that is still open: what it holds so far, the last item first, and the key
that waits for its value. -/
inductive Frame where
  | items (read : List Json)
  | fields (read : Fields) (key : Text)

inductive Expectation where
  | value
  | valueOrClose
  | keyOrClose (read : Fields)
  | key (read : Fields)
  | colon (read : Fields) (key : Text)
  | end_ (j : Json)

def maxDepth : Nat := 127

def step (stack : List Frame) (expected : Expectation) (l : Lexeme) :
    Option (List Frame × Expectation) :=
  match expected, l with
  | .value, .openArray | .valueOrClose, .openArray =>
    if stack.length < maxDepth then some (.items [] :: stack, .valueOrClose) else none
  | .value, .openObject | .valueOrClose, .openObject =>
    if stack.length < maxDepth then some (stack, .keyOrClose []) else none
  | .value, .string s | .valueOrClose, .string s => some (stack, .end_ (.string s))
  | .value, .scalar j | .valueOrClose, .scalar j => some (stack, .end_ j)
  | .valueOrClose, .closeArray =>
    match stack with
    | .items read :: stack => some (stack, .end_ (.array read.reverse))
    | _ => none
  | .keyOrClose read, .closeObject => some (stack, .end_ (.object read))
  | .keyOrClose read, .string key | .key read, .string key => some (stack, .colon read key)
  | .colon read key, .colon => some (.fields read key :: stack, .value)
  | .end_ j, .comma =>
    match stack with
    | .items read :: stack => some (.items (j :: read) :: stack, .value)
    | .fields read key :: stack => some (stack, .key (read.put key j))
    | [] => none
  | .end_ j, .closeArray =>
    match stack with
    | .items read :: stack => some (stack, .end_ (.array (j :: read).reverse))
    | _ => none
  | .end_ j, .closeObject =>
    match stack with
    | .fields read key :: stack => some (stack, .end_ (.object (read.put key j)))
    | _ => none
  | _, _ => none

def build? : List Frame → Expectation → List Lexeme → Option Json
  | [], .end_ j, [] => some j
  | _, _, [] => none
  | stack, expected, l :: ls =>
    (step stack expected l).bind fun (stack, expected) => build? stack expected ls

def parse? (s : Text) : Option Json := (lexemes? s).bind (build? [] .value)

end SqlReview.Json
