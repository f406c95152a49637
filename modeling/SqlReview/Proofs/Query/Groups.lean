import SqlReview.Proofs.Sql.Tokens
import SqlReview.Query.References

/-!
What the groups of tokens after SELECT and FROM tell. Only the kinds and texts of tokens count, and
each stretch of lexemes adds a text of its own to its group.
-/
namespace SqlReview.Query

open Sql

section Unplaced

theorem collectGroup_unplaced (clause : Clause) (state : GroupState) (ts : List Token) :
    collectGroup clause state (ts.map Token.unplaced) =
      ((collectGroup clause state ts).1, (collectGroup clause state ts).2.map Token.unplaced) := by
  induction ts generalizing state with
  | nil => rfl
  | cons t ts ih =>
    have step : state.step clause t.unplaced = state.step clause t := rfl
    rw [List.map_cons, collectGroup, collectGroup, step]
    cases state.step clause t with
    | none => rfl
    | some next => simp only [ih]

theorem isPunctuation_unplaced (c : Char) (t : Token) :
    t.unplaced.isPunctuation c = t.isPunctuation c := rfl

theorem isKeyword_unplaced (w : Text) (t : Token) : t.unplaced.isKeyword w = t.isKeyword w := rfl

theorem nest_unplaced (depth : Nat) (t : Token) : nest depth t.unplaced = nest depth t := rfl

theorem ofTokensFrom_unplaced (depth : Nat) (ts : List Token) :
    References.ofTokensFrom depth (ts.map Token.unplaced) = References.ofTokensFrom depth ts := by
  induction depth, ts using References.ofTokensFrom.induct with
  | case1 depth => rfl
  | case2 depth t ts paren ih =>
    rw [List.map_cons, References.ofTokensFrom, References.ofTokensFrom]
    rw [isPunctuation_unplaced, isPunctuation_unplaced, nest_unplaced, if_pos paren, if_pos paren,
      ih]
  | case3 depth t ts paren select ih =>
    rw [List.map_cons, References.ofTokensFrom, References.ofTokensFrom]
    rw [isPunctuation_unplaced, isPunctuation_unplaced, isKeyword_unplaced, if_neg paren,
      if_neg paren, if_pos select, if_pos select, collectGroup_unplaced]
    simp only [ih]
  | case4 depth t ts paren select from_ ih =>
    rw [List.map_cons, References.ofTokensFrom, References.ofTokensFrom]
    rw [isPunctuation_unplaced, isPunctuation_unplaced, isKeyword_unplaced, isKeyword_unplaced,
      if_neg paren, if_neg paren, if_neg select, if_neg select, if_pos from_, if_pos from_,
      collectGroup_unplaced]
    simp only [ih]
  | case5 depth t ts paren select from_ ih =>
    rw [List.map_cons, References.ofTokensFrom, References.ofTokensFrom]
    rw [isPunctuation_unplaced, isPunctuation_unplaced, isKeyword_unplaced, isKeyword_unplaced,
      if_neg paren, if_neg paren, if_neg select, if_neg select, if_neg from_, if_neg from_, ih]

theorem ofQuery_of_lexemes {query : Text} {ls : List Lexeme} (h : lexemes query = .ok ls) :
    References.ofQuery query = References.ofTokensFrom 0 (ls.map Lexeme.token) := by
  unfold References.ofQuery tokenize
  rw [h, ← unplaced_tokensOf, ofTokensFrom_unplaced]
  rfl

end Unplaced

section Adds

/-- Lexemes add a text to a group, inside a join's predicate or outside, and lead into one or out of
it. -/
def Adds (clause : Clause) (inside : Bool) (ls : List Lexeme) (text : Text) (inside' : Bool) :
    Prop :=
  ∀ leading ts, ∃ leading', collectGroup clause ⟨0, leading, inside⟩ (ls.map Lexeme.token ++ ts) =
    (text ++ (collectGroup clause ⟨0, leading', inside'⟩ ts).1,
      (collectGroup clause ⟨0, leading', inside'⟩ ts).2)

variable {clause : Clause} {inside inside' inside'' : Bool} {ls ms : List Lexeme} {s t : Text}
  {l : Lexeme}

theorem Adds.nil : Adds clause inside [] [] inside := fun leading _ => ⟨leading, rfl⟩

theorem Adds.append (first : Adds clause inside ls s inside')
    (second : Adds clause inside' ms t inside'') :
    Adds clause inside (ls ++ ms) (s ++ t) inside'' := by
  intro leading ts
  obtain ⟨between, e⟩ := first leading (ms.map Lexeme.token ++ ts)
  obtain ⟨after, e'⟩ := second between ts
  refine ⟨after, ?_⟩
  rw [List.map_append, List.append_assoc, e, e', List.append_assoc]

theorem Adds.of_step
    (h : ∀ leading, ∃ leading', GroupState.step clause ⟨0, leading, inside⟩ l.token =
      some (t, ⟨0, leading', inside'⟩)) : Adds clause inside [l] t inside' := by
  intro leading ts
  obtain ⟨leading', e⟩ := h leading
  refine ⟨leading', ?_⟩
  rw [List.map_singleton, List.singleton_append, collectGroup, e]

/-- A token that neither ends a group nor changes how it is read. -/
structure Passes (clause : Clause) (t : Token) : Prop where
  goesOn : endsGroup t = false
  flat : t.isPunctuation '(' = false
  select : clause = .select → (t.isKeyword "DISTINCT" || t.isKeyword "ALL") = false
  listed : clause = .from_ → (t.isKeyword "ON" || t.isKeyword "USING") = false ∧
    (t.isPunctuation ',' || t.isAnyKeyword joinWords) = false

theorem Passes.nest_eq {t : Token} (h : Passes clause t) (depth : Nat) : nest depth t = depth := by
  have closed : t.isPunctuation ')' = false := by
    have := h.goesOn
    rw [endsGroup, Bool.or_eq_false_iff] at this
    exact this.2
  rw [nest, h.flat, closed]
  rfl

theorem Passes.adds (h : Passes clause l.token) :
    Adds clause inside [l] (if inside then [] else l.spelling) inside := by
  apply Adds.of_step
  intro leading
  unfold GroupState.step
  rw [h.goesOn, h.nest_eq]
  cases clause with
  | select =>
    simp only [h.select rfl, Bool.and_false, Bool.false_eq_true, if_false, if_true]
    exact ⟨_, rfl⟩
  | from_ =>
    simp only [(h.listed rfl).1, (h.listed rfl).2, Bool.false_eq_true, if_false, if_true]
    exact ⟨_, rfl⟩

end Adds

section Stretch

variable {clause : Clause} {inside : Bool} {w : Text} {t : Writing}

def groupWords : List Text :=
  clauseEnders ++ joinWords ++ (["ON", "USING", "DISTINCT", "ALL"] : List String).map String.toList

theorem groupWords_reserved : groupWords ⊆ reservedWords := by decide

theorem passes_of_other {t : Token} (word : ∀ w ∈ groupWords, t.isKeyword w = false)
    (mark : ∀ c ∈ groupMarks, t.isPunctuation c = false) : Passes clause t := by
  have none {ws : List Text} (h : ws ⊆ groupWords) : t.isAnyKeyword ws = false := by
    apply List.any_eq_false.2
    intro w hw
    rw [word w (h hw)]
    exact Bool.false_ne_true
  constructor
  · rw [endsGroup, mark ';' (by decide), mark ')' (by decide), none (by decide)]
    rfl
  · exact mark '(' (by decide)
  · intro _
    rw [word "DISTINCT" (by decide), word "ALL" (by decide)]
    rfl
  · intro _
    rw [word "ON" (by decide), word "USING" (by decide), mark ',' (by decide), none (by decide)]
    exact ⟨rfl, rfl⟩

theorem passes_solid {s : Solid} (h : s.Avoids groupWords) :
    ∀ l ∈ s.lexemes, Passes clause l.token := fun l hl =>
  passes_of_other (s.isKeyword_lexeme groupWords_reserved h l hl) (s.isPunctuation_lexeme l hl)

theorem passes_blanks (bs : List Blank) :
    ∀ l ∈ bs.map fun b => Lexeme.blank b.char, Passes clause l.token := by
  intro l hl
  obtain ⟨b, _, rfl⟩ := List.mem_map.1 hl
  exact passes_of_other (fun w _ => isKeyword_of_kind TokenKind.noConfusion w) fun c _ => rfl

theorem Adds.passing {ls : List Lexeme} (h : ∀ l ∈ ls, Passes clause l.token) :
    Adds clause inside ls (if inside then [] else ls.flatMap Lexeme.spelling) inside := by
  induction ls with
  | nil =>
    rw [List.flatMap_nil, ite_self]
    exact Adds.nil
  | cons l ls ih =>
    obtain ⟨first, h⟩ := List.forall_mem_cons.1 h
    have all := (Passes.adds first).append (ih h)
    cases inside with
    | true => exact all
    | false => exact all

def IsWord : Solid → Prop
  | .keyword _ _ | .name _ => True
  | _ => False

theorem Adds.word {s : Solid} (word : IsWord s) (h : s.Avoids groupWords) :
    Adds clause false s.lexemes s.text false := by
  have all : Adds clause false s.lexemes _ false := Adds.passing (passes_solid h)
  have spelled : s.lexemes.flatMap Lexeme.spelling = s.text := by
    cases s with
    | keyword | name => exact List.append_nil _
    | _ => cases word
  rw [spelled] at all
  exact all

theorem Adds.blanks (bs : List Blank) :
    Adds clause false (bs.map fun b => .blank b.char) (blankText bs) false := by
  have all : Adds clause false (bs.map fun b => .blank b.char) _ false :=
    Adds.passing (passes_blanks bs)
  have spelled : (bs.map fun b => Lexeme.blank b.char).flatMap Lexeme.spelling = blankText bs := by
    rw [List.flatMap_map]
    exact List.map_eq_flatMap.symm
  rw [spelled] at all
  exact all

theorem Adds.comma : Adds clause false [.symbol [',']] [','] false := by
  cases clause with
  | select =>
    apply Adds.of_step
    exact fun leading => ⟨false, by cases leading <;> rfl⟩
  | from_ =>
    apply Adds.of_step
    exact fun leading => ⟨false, rfl⟩

theorem Adds.break_ (b : Break) : Adds clause false b.lexemes b.text false := by
  cases b with
  | gap g => exact Adds.blanks (g.first :: g.others)
  | comma c => exact (Adds.blanks c.before).append (Adds.comma.append (Adds.blanks c.after))

theorem Adds.words (word : ∀ x ∈ t, IsWord x.2) (h : t.Avoids groupWords) :
    Adds clause false (Writing.lexemes t) (Writing.text t) false := by
  induction t with
  | nil => exact Adds.nil
  | cons x t ih =>
    obtain ⟨first, word⟩ := List.forall_mem_cons.1 word
    obtain ⟨other, h⟩ := List.forall_mem_cons.1 h
    rw [Writing.text_cons, Writing.lexemes_cons]
    exact (Adds.break_ x.1).append ((Adds.word first other).append (ih word h))

theorem Adds.predicate (gaps : ∀ x ∈ t, ∃ g, x.1 = .gap g) (h : t.Avoids groupWords) :
    Adds .from_ true (Writing.lexemes t) [] true := by
  apply Adds.passing
  intro l hl
  obtain ⟨x, hx, hl⟩ := List.mem_flatMap.1 hl
  rcases List.mem_append.1 hl with hl | hl
  · obtain ⟨g, hg⟩ := gaps x hx
    rw [hg] at hl
    exact passes_blanks (g.first :: g.others) l hl
  · exact passes_solid (h x hx) l hl

theorem Adds.joinWord (known : w ∈ reservedWords) (k : Keyword w) (join : w ∈ joinWords)
    (inside : Bool) : Adds .from_ inside [.word k.text] [','] false := by
  apply Adds.of_step
  intro leading
  have goesOn : endsGroup (Lexeme.word k.text).token = false := by
    rw [endsGroup, isPunctuation_word, isPunctuation_word,
      isAnyKeyword_keyword known k (by decide), Bool.or_false, Bool.false_or,
      decide_eq_false_iff_not]
    exact (by decide : ∀ w ∈ joinWords, w ∉ clauseEnders) w join
  have noPredicate : ((Lexeme.word k.text).token.isKeyword "ON" ||
      (Lexeme.word k.text).token.isKeyword "USING") = false := by
    have other := (by decide : ∀ w ∈ joinWords, w ≠ "ON".toList ∧ w ≠ "USING".toList) w join
    rw [isKeyword_other known k (by decide) other.1, isKeyword_other known k (by decide) other.2]
    rfl
  have joins : (Lexeme.word k.text).token.isAnyKeyword joinWords = true := by
    rw [isAnyKeyword_keyword known k (by decide)]
    exact decide_eq_true join
  unfold GroupState.step
  rw [goesOn, noPredicate, joins, Bool.or_true]
  exact ⟨false, rfl⟩

theorem Adds.on (k : Keyword "ON") (inside : Bool) :
    Adds .from_ inside [.word k.text] [] true := by
  apply Adds.of_step
  intro leading
  have known : "ON".toList ∈ reservedWords := by decide
  have goesOn : endsGroup (Lexeme.word k.text).token = false := by
    rw [endsGroup, isPunctuation_word, isPunctuation_word,
      isAnyKeyword_keyword known k (by decide)]
    decide
  unfold GroupState.step
  rw [goesOn, isKeyword_same known k]
  exact ⟨leading, rfl⟩

theorem collectGroup_end (clause : Clause) (leading inside : Bool) {t : Token}
    (ends : endsGroup t = true) (ts : List Token) :
    collectGroup clause ⟨0, leading, inside⟩ (t :: ts) = ([], t :: ts) := by
  rw [collectGroup]
  unfold GroupState.step
  rw [ends]
  rfl

theorem endsGroup_keyword (known : w ∈ reservedWords) (k : Keyword w) (ends : w ∈ clauseEnders) :
    endsGroup (Lexeme.word k.text).token = true := by
  rw [endsGroup, isAnyKeyword_keyword known k (by decide), decide_eq_true ends, Bool.or_true,
    Bool.true_or]

end Stretch

section Quiet

/-- A token at which no list starts and no level of parentheses changes. -/
structure Quiet (t : Token) : Prop where
  opening : t.isPunctuation '(' = false
  closing : t.isPunctuation ')' = false
  select : t.isKeyword "SELECT" = false
  from_ : t.isKeyword "FROM" = false

theorem ofTokensFrom_quiet {ts : List Token} (h : ∀ t ∈ ts, Quiet t) :
    References.ofTokensFrom 0 ts = ⟨[], []⟩ := by
  induction ts with
  | nil => rw [References.ofTokensFrom]
  | cons t ts ih =>
    obtain ⟨first, h⟩ := List.forall_mem_cons.1 h
    rw [References.ofTokensFrom, first.opening, first.closing, first.select, first.from_]
    exact ih h

theorem Quiet.of_kind {t : Token} (kind : t.kind ≠ .keyword)
    (opening : t.isPunctuation '(' = false) (closing : t.isPunctuation ')' = false) : Quiet t :=
  ⟨opening, closing, isKeyword_of_kind kind _, isKeyword_of_kind kind _⟩

theorem Quiet.break_ (b : Break) : ∀ l ∈ b.lexemes, Quiet l.token := by
  have blank (bs : List Blank) : ∀ l ∈ bs.map fun b => Lexeme.blank b.char, Quiet l.token := by
    intro l hl
    obtain ⟨b, _, rfl⟩ := List.mem_map.1 hl
    exact Quiet.of_kind TokenKind.noConfusion rfl rfl
  cases b with
  | gap g => exact blank (g.first :: g.others)
  | comma c =>
    intro l hl
    rcases List.mem_append.1 hl with hl | hl
    · exact blank c.before l hl
    · rcases List.mem_cons.1 hl with rfl | hl
      · exact Quiet.of_kind (kind_symbol _) (by decide) (by decide)
      · exact blank c.after l hl

theorem Quiet.writing {t : Writing}
    (h : t.Avoids ((["SELECT", "FROM"] : List String).map String.toList)) :
    ∀ l ∈ Writing.lexemes t, Quiet l.token := by
  intro l hl
  obtain ⟨x, hx, hl⟩ := List.mem_flatMap.1 hl
  rcases List.mem_append.1 hl with hl | hl
  · exact Quiet.break_ x.1 l hl
  · have word := x.2.isKeyword_lexeme (by decide) (h x hx) l hl
    have mark := x.2.isPunctuation_lexeme l hl
    exact ⟨mark '(' (by decide), mark ')' (by decide), word "SELECT" (by decide),
      word "FROM" (by decide)⟩

end Quiet

end SqlReview.Query
