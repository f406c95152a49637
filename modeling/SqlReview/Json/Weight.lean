import SqlReview.Json.Reader

/-!
The weight of a value bounds the length of any text that spells it: a parsed value weighs no more
than the text has characters. A string weighs more than its characters, so looking into a string
that holds JSON text always leads to a lighter value.
-/
namespace SqlReview.Json

mutual

def weight : Json → Nat
  | .null | .bool _ | .number _ => 1
  | .string s => s.length + 2
  | .array items => 2 + itemsWeight items
  | .object fields => 2 + fieldsWeight fields

def itemsWeight : List Json → Nat
  | [] => 0
  | j :: items => j.weight + itemsWeight items

def fieldsWeight : List (Text × Json) → Nat
  | [] => 0
  | (key, j) :: fields => key.length + 2 + j.weight + fieldsWeight fields

end

theorem weight_pos (j : Json) : 0 < j.weight := by
  cases j <;> simp only [weight] <;> omega

theorem itemsWeight_append (xs ys : List Json) :
    itemsWeight (xs ++ ys) = itemsWeight xs + itemsWeight ys := by
  induction xs with
  | nil => simp [itemsWeight]
  | cons x xs ih => simp [itemsWeight, ih, Nat.add_assoc]

theorem itemsWeight_reverse (xs : List Json) : itemsWeight xs.reverse = itemsWeight xs := by
  induction xs with
  | nil => rfl
  | cons x xs ih => simp [itemsWeight, itemsWeight_append, ih, Nat.add_comm]

theorem fieldsWeight_put (key : Text) (j : Json) (fields : Fields) :
    fieldsWeight (fields.put key j) ≤ key.length + 2 + j.weight + fieldsWeight fields := by
  induction fields with
  | nil => simp [Fields.put, fieldsWeight]
  | cons entry fields ih =>
    simp only [Fields.put]
    split
    · simp only [fieldsWeight]
      omega
    · split <;> simp only [fieldsWeight] <;> omega

theorem weight_lt_of_mem {j : Json} {items : List Json} (h : j ∈ items) :
    j.weight < (Json.array items).weight := by
  have : j.weight ≤ itemsWeight items := by
    induction items with
    | nil => contradiction
    | cons x xs ih =>
      simp only [itemsWeight]
      rcases List.mem_cons.1 h with rfl | h
      · omega
      · have := ih h
        omega
  simp only [weight]
  omega

theorem weight_lt_of_field {key : Text} {j : Json} {fields : Fields} (h : (key, j) ∈ fields) :
    j.weight < (Json.object fields).weight := by
  have : j.weight ≤ fieldsWeight fields := by
    induction fields with
    | nil => contradiction
    | cons x xs ih =>
      simp only [fieldsWeight]
      rcases List.mem_cons.1 h with rfl | h
      · simp only
        omega
      · have := ih h
        omega
  simp only [weight]
  omega

theorem weight_get?_lt {key : Text} {j v : Json} (h : j.get? key = some v) :
    v.weight < j.weight := by
  cases j with
  | object fields =>
    simp only [get?, Option.map_eq_some_iff] at h
    obtain ⟨⟨k, w⟩, h, rfl⟩ := h
    exact weight_lt_of_field (List.mem_of_find?_eq_some h)
  | _ => simp [get?] at h

/-- The characters that a lexeme stands for, at least. -/
def Lexeme.width : Lexeme → Nat
  | .string s => s.length + 2
  | .scalar j => j.weight
  | _ => 1

def lexemesWidth : List Lexeme → Nat
  | [] => 0
  | l :: ls => l.width + lexemesWidth ls

theorem stringBody?_width {s body rest : Text} (h : stringBody? s = some (body, rest)) :
    body.length + 1 + rest.length ≤ s.length := by
  fun_induction stringBody? s generalizing body rest with
  | case1 => contradiction
  | case2 => cases h; simp only [List.length_cons, List.length_nil]; omega
  | case3 => contradiction
  | case4 s c r e _ ih =>
    simp only [Option.map_eq_some_iff] at h
    obtain ⟨⟨b, r'⟩, h, e'⟩ := h
    cases e'
    have := ih h
    have := escape?_length e
    simp only [List.length_cons]
    omega
  | case5 => contradiction
  | case6 c s _ _ _ ih =>
    simp only [Option.map_eq_some_iff] at h
    obtain ⟨⟨b, r'⟩, h, e'⟩ := h
    cases e'
    have := ih h
    simp only [List.length_cons]
    omega

theorem lexeme?_width {c : Char} {s rest : Text} {l : Lexeme}
    (h : lexeme? c s = some (l, rest)) : l.width + rest.length ≤ s.length + 1 := by
  have bound := lexeme?_length h
  unfold lexeme? at h
  split at h
  case h_7 =>
    simp only [Option.map_eq_some_iff] at h
    obtain ⟨⟨b, r⟩, h, e⟩ := h
    cases e
    have := stringBody?_width h
    simp only [Lexeme.width]
    omega
  case h_11 =>
    simp only [Option.map_eq_some_iff] at h
    obtain ⟨⟨n, r⟩, h, e⟩ := h
    cases e
    simp only [Lexeme.width, weight] at *
    omega
  all_goals first
    | (cases h; simp only [Lexeme.width]; omega)
    | (split at h
       · cases h; simp only [Lexeme.width, weight] at *; omega
       · contradiction)

theorem lexemes?_width {s : Text} {ls : List Lexeme} (h : lexemes? s = some ls) :
    lexemesWidth ls ≤ s.length := by
  fun_induction lexemes? s generalizing ls with
  | case1 => cases h; simp [lexemesWidth]
  | case2 c s _ ih => exact Nat.le_succ_of_le (ih h)
  | case3 => contradiction
  | case4 c s _ l rest e _ ih =>
    simp only [Option.map_eq_some_iff] at h
    obtain ⟨ls', h, rfl⟩ := h
    have := ih h
    have := lexeme?_width e
    simp only [lexemesWidth, List.length_cons] at *
    omega

def Frame.weight : Frame → Nat
  | .items read => 1 + itemsWeight read
  | .fields read key => 1 + fieldsWeight read + (key.length + 2)

def stackWeight : List Frame → Nat
  | [] => 0
  | frame :: stack => frame.weight + stackWeight stack

def Expectation.weight : Expectation → Nat
  | .value | .valueOrClose => 0
  | .keyOrClose read | .key read => 1 + fieldsWeight read
  | .colon read name => 1 + fieldsWeight read + (name.length + 2)
  | .end_ j => j.weight

theorem step_weight {stack stack' : List Frame} {expected expected' : Expectation} {l : Lexeme}
    (h : step stack expected l = some (stack', expected')) :
    stackWeight stack' + expected'.weight ≤ stackWeight stack + expected.weight + l.width := by
  unfold step at h
  split at h
  all_goals try split at h
  all_goals try contradiction
  all_goals cases h
  all_goals
    simp only [stackWeight, Frame.weight, Expectation.weight,
      Lexeme.width, itemsWeight, Json.weight, itemsWeight_reverse]
    grind [fieldsWeight_put, fieldsWeight]

theorem build?_weight {stack : List Frame} {expected : Expectation} {ls : List Lexeme} {j : Json}
    (h : build? stack expected ls = some j) :
    j.weight ≤ stackWeight stack + expected.weight + lexemesWidth ls := by
  induction ls generalizing stack expected with
  | nil =>
    unfold build? at h
    split at h
    · cases h
      simp only [Expectation.weight]
      omega
    · contradiction
    · contradiction
  | cons l ls ih =>
    simp only [build?, Option.bind_eq_some_iff] at h
    obtain ⟨⟨stack', expected'⟩, hs, h⟩ := h
    have := ih h
    have := step_weight hs
    simp only [lexemesWidth] at *
    omega

theorem parse?_weight {s : Text} {j : Json} (h : parse? s = some j) : j.weight ≤ s.length := by
  simp only [parse?, Option.bind_eq_some_iff] at h
  obtain ⟨ls, hl, h⟩ := h
  have := build?_weight h
  have := lexemes?_width hl
  simp only [stackWeight, Expectation.weight] at *
  omega

end SqlReview.Json
