import SqlReview.Proofs.Sql.Lexing

/-!
The tokens of a writing: which of them are keywords, and which are marks that part lists. Places in
the stream are left out of account, since nothing is told by them.
-/
namespace SqlReview.Sql

def Lexeme.token (l : Lexeme) : Token := ⟨l.kind, l.spelling, 0⟩

def Token.unplaced (t : Token) : Token := { t with position := 0 }

theorem unplaced_tokensOf (ls : List Lexeme) :
    (tokensOf ls).map Token.unplaced = ls.map Lexeme.token := by
  unfold tokensOf
  apply List.ext_getElem
  · simp
  · intro i hi hi'
    simp [Token.unplaced, Lexeme.token]

section Keyword

variable {w w' : Text}

theorem kind_word (s : Text) : (Lexeme.word s).token.kind =
    if isReserved s then TokenKind.keyword else TokenKind.identifier := rfl

theorem kind_keyword (known : w ∈ reservedWords) (k : Keyword w) :
    (Lexeme.word k.text).token.kind = .keyword := by
  have reserved : isReserved k.text = true := by
    apply List.any_eq_true.2
    refine ⟨w, known, ?_⟩
    rw [Text.eqIgnoreCase_comm]
    exact k.spelled
  rw [kind_word, if_pos reserved]

theorem isKeyword_keyword (known : w ∈ reservedWords) (k : Keyword w) (w' : Text) :
    (Lexeme.word k.text).token.isKeyword w' = Text.eqIgnoreCase w w' := by
  unfold Token.isKeyword
  rw [kind_keyword known, ← k.eqIgnoreCase]
  rfl

theorem isKeyword_same (known : w ∈ reservedWords) (k : Keyword w) :
    (Lexeme.word k.text).token.isKeyword w = true := by
  rw [isKeyword_keyword known, Text.eqIgnoreCase]
  exact beq_self_eq_true _

theorem isKeyword_other (known : w ∈ reservedWords) (k : Keyword w) (known' : w' ∈ reservedWords)
    (other : w ≠ w') : (Lexeme.word k.text).token.isKeyword w' = false := by
  rw [isKeyword_keyword known, ← Bool.not_eq_true]
  intro same
  exact other (lower_inj_reserved w known w' known' (beq_iff_eq.1 same))

theorem isAnyKeyword_keyword (known : w ∈ reservedWords) (k : Keyword w) {ws : List Text}
    (h : ws ⊆ reservedWords) : (Lexeme.word k.text).token.isAnyKeyword ws = decide (w ∈ ws) := by
  unfold Token.isAnyKeyword
  rw [Bool.eq_iff_iff, List.any_eq_true, decide_eq_true_iff]
  constructor
  · rintro ⟨w', hw', same⟩
    apply Decidable.byContradiction
    intro other
    rw [isKeyword_other known k (h hw') fun e => other (e ▸ hw')] at same
    cases same
  · intro hw
    exact ⟨w, hw, isKeyword_same known k⟩

theorem isKeyword_of_kind {t : Token} (h : t.kind ≠ .keyword) (w : Text) :
    t.isKeyword w = false := by
  unfold Token.isKeyword
  rw [beq_eq_false_iff_ne.2 h]
  rfl

theorem isPunctuation_word (c : Char) (s : Text) :
    (Lexeme.word s).token.isPunctuation c = false := by
  have kind : ((Lexeme.word s).token.kind == .punctuation) = false := by
    rw [kind_word]
    split <;> rfl
  unfold Token.isPunctuation
  rw [kind]
  rfl

theorem kind_symbol (sign : Text) : (Lexeme.symbol sign).token.kind ≠ .keyword := by
  cases sign with
  | nil => exact TokenKind.noConfusion
  | cons c sign =>
    cases sign with
    | nil =>
      change (if c ∈ [',', ';', '(', ')', '.'] then TokenKind.punctuation else .other) ≠ .keyword
      split <;> exact TokenKind.noConfusion
    | cons d sign => exact TokenKind.noConfusion

theorem isPunctuation_symbol {sign : Text} {c : Char} (h : sign ≠ [c]) :
    (Lexeme.symbol sign).token.isPunctuation c = false := by
  have other : ((Lexeme.symbol sign).token.text == [c]) = false := beq_eq_false_iff_ne.2 h
  unfold Token.isPunctuation
  rw [other, Bool.and_false]

/-- The marks that end or part lists of columns and tables. -/
def groupMarks : List Char := ['(', ')', ';', ',']

theorem ne_groupMark {s : Text} {c : Char} (sign : s ⊆ signs) (hc : c ∈ groupMarks) : s ≠ [c] := by
  have all : groupMarks.all (fun c => decide (c ∉ signs)) = true := by decide
  rintro rfl
  exact of_decide_eq_true (List.all_eq_true.1 all c hc) (sign (List.mem_singleton_self c))

namespace Solid

variable {ws : List Text}

theorem isKeyword_lexeme {s : Solid} (known : ws ⊆ reservedWords) (h : s.Avoids ws) :
    ∀ l ∈ s.lexemes, ∀ w ∈ ws, l.token.isKeyword w = false := by
  intro l hl w hw
  have name (n : Name) : (Lexeme.word n.text).token.isKeyword w = false := by
    apply isKeyword_of_kind
    rw [kind_word, n.free]
    exact TokenKind.noConfusion
  cases s with
  | @keyword w' known' k =>
    obtain rfl := List.mem_singleton.1 hl
    apply isKeyword_other known' k (known hw)
    rintro rfl
    exact h hw
  | name n =>
    obtain rfl := List.mem_singleton.1 hl
    exact name n
  | qualified table column =>
    simp only [Solid.lexemes, List.mem_cons, List.not_mem_nil, or_false] at hl
    rcases hl with rfl | rfl | rfl
    · exact name table
    · exact isKeyword_of_kind (kind_symbol _) w
    · exact name column
  | integer negative d =>
    rcases List.mem_append.1 hl with hl | hl
    · cases negative with
      | false => cases hl
      | true =>
        obtain rfl := List.mem_singleton.1 hl
        exact isKeyword_of_kind (kind_symbol _) w
    · obtain rfl := List.mem_singleton.1 hl
      exact isKeyword_of_kind TokenKind.noConfusion w
  | sign c =>
    obtain rfl := List.mem_singleton.1 hl
    exact isKeyword_of_kind (kind_symbol _) w

theorem isPunctuation_lexeme (s : Solid) :
    ∀ l ∈ s.lexemes, ∀ c ∈ groupMarks, l.token.isPunctuation c = false := by
  intro l hl c hc
  cases s with
  | keyword | name =>
    obtain rfl := List.mem_singleton.1 hl
    exact isPunctuation_word c _
  | qualified table column =>
    simp only [Solid.lexemes, List.mem_cons, List.not_mem_nil, or_false] at hl
    rcases hl with rfl | rfl | rfl
    · exact isPunctuation_word c _
    · exact isPunctuation_symbol (ne_groupMark (by decide) hc)
    · exact isPunctuation_word c _
  | integer negative d =>
    rcases List.mem_append.1 hl with hl | hl
    · cases negative with
      | false => cases hl
      | true =>
        obtain rfl := List.mem_singleton.1 hl
        exact isPunctuation_symbol (ne_groupMark (by decide) hc)
    · obtain rfl := List.mem_singleton.1 hl
      rfl
  | sign comparator =>
    obtain rfl := List.mem_singleton.1 hl
    have sign : (if comparator = .notEqual then ['<', '>'] else comparator.text) ⊆ signs := by
      split
      · decide
      · exact comparator.mem_signs
    exact isPunctuation_symbol (ne_groupMark sign hc)

end Solid

end Keyword

end SqlReview.Sql
