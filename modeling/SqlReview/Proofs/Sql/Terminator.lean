import SqlReview.Proofs.Sql.Remainder
import SqlReview.Proofs.Sql.Lookahead.Faults

/-!
A query with a semicolon at its end has the semicolon as its last lexeme, after the lexemes of the
query, unless a sign at its end takes it in. A query that cannot be cut into lexemes cannot with the
semicolon either.
-/
namespace SqlReview.Sql

open Text (terminated)

section Lexemes

variable {query : Text} {ls : List Lexeme}

/-- No lexeme at the end takes a next character in. -/
def EndsClosed (query : Text) : Prop :=
  ∀ ls, lexemes query = .ok ls → ∀ l ∈ ls.getLast?, l.isOpen = false

theorem scan_terminated {c : Char} {s rest : Text} {l : Lexeme} (h : scan c s = .ok (l, rest))
    (closed : rest = [] → l.isOpen = false) :
    scan c (terminated s) = .ok (l, terminated rest) := by
  apply scan_exchange stops_terminator closed
  · rintro _ _ ⟨⟩
  · rw [List.append_nil, List.append_nil]
    exact h

theorem endsClosed_of_lexemes (h : lexemes query = .ok ls)
    (closed : ∀ l ∈ ls.getLast?, l.isOpen = false) : EndsClosed query := by
  intro ms e
  rw [h] at e
  exact Except.ok.inj e ▸ closed

theorem endsClosed_of_scan {c : Char} {s rest : Text} {l : Lexeme}
    (h : scan c s = .ok (l, rest)) (closed : EndsClosed (c :: s)) :
    EndsClosed rest ∧ (rest = [] → l.isOpen = false) := by
  have whole := lexemes_of_scan h
  constructor
  · intro ms later k hk
    rw [later] at whole
    apply closed _ whole
    rw [List.getLast?_cons, Option.mem_def.1 hk]
    rfl
  · rintro rfl
    rw [lexemes] at whole
    exact closed _ whole l rfl

theorem lexemes_terminated (closed : EndsClosed query) (h : lexemes query = .ok ls) :
    lexemes (terminated query) = .ok (ls ++ [.symbol [';']]) := by
  induction ls generalizing query with
  | nil =>
    obtain rfl := eq_nil_of_lexemes h
    have single : lexemes [';'] = (lexemes []).map (.symbol [';'] :: ·) := lexemes_of_scan rfl
    rw [terminated, List.nil_append, single, lexemes]
    rfl
  | cons l ls ih =>
    obtain ⟨c, r, rest, rfl, e, later⟩ := exists_of_lexemes h
    obtain ⟨closed, last⟩ := endsClosed_of_scan e closed
    have read : lexemes (terminated (c :: r)) = _ := lexemes_of_scan (scan_terminated e last)
    rw [read, ih closed later]
    rfl

theorem lexemes_fails (h : Fails (lexemes query)) : Fails (lexemes (terminated query)) := by
  fun_induction lexemes query with
  | case1 => exact absurd h fails_ok
  | case2 c r fault e =>
    obtain ⟨fault', e'⟩ := scan_fails ⟨fault, e⟩
    exact ⟨fault', lexemes_of_fault e'⟩
  | case3 c r l rest e _ ih =>
    have later : Fails (lexemes rest) := by
      cases found : lexemes rest with
      | error fault => exact fails_error fault
      | ok ms =>
        rw [found] at h
        exact absurd h fails_ok
    -- a text that fails is not empty, so the first lexeme is not the last one
    have more : rest = [] → l.isOpen = false := by
      rintro rfl
      rw [lexemes] at later
      exact absurd later fails_ok
    obtain ⟨fault, e'⟩ := ih later
    have read : lexemes (terminated (c :: r)) = _ := lexemes_of_scan (scan_terminated e more)
    rw [read, e']
    exact fails_error fault

end Lexemes

end SqlReview.Sql
