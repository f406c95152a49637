import SqlReview.Proofs.Query.Listing
import SqlReview.Proofs.Query.Nested

/-!
What a statement refers to, item by item. Parentheses are respected where a list is told from the
rest of the statement, but its text is cut at every comma, whether parentheses or quotes stand
around it. An item is one reference if no comma is in it; a derived table with one in its
parentheses brings in more than its name.
-/
namespace SqlReview.Query.TopLevel

open Sql
open Nested (Blanks Space)

section Grammar

/-- The token stands in the list outside parentheses, `depth` of which are open before the list. -/
def Outside (depth : Nat) (ts : List Token) (t : Token) : Prop :=
  ∃ front back, ts = front ++ t :: back ∧ front.foldl nest depth = 0

def parts : Clause → Token → Bool
  | .select, t => t.isPunctuation ','
  | .from_, t => t.isPunctuation ',' || t.isAnyKeyword joinWords

def opensPredicate : Clause → Token → Bool
  | .select, _ => false
  | .from_, t => t.isKeyword "ON" || t.isKeyword "USING"

def restricts (t : Token) : Bool := t.isKeyword "DISTINCT" || t.isKeyword "ALL"

def opensList (t : Token) : Bool := t.isKeyword "SELECT" || t.isKeyword "FROM"

/-- Tokens between two separators of a list. All that parentheses hold is allowed. -/
structure Stretch (clause : Clause) where
  tokens : List Token
  closed : tokens.foldl nest 0 = 0
  goesOn : ∀ t, Outside 0 tokens t → endsGroup t = false
  single : ∀ t, Outside 0 tokens t → parts clause t = false

def Stretch.text {clause : Clause} (s : Stretch clause) : Text := s.tokens.flatMap Token.text

structure Item (clause : Clause) extends Stretch clause where
  bare : ∀ t, Outside 0 tokens t → opensPredicate clause t = false

structure Predicate (clause : Clause) where
  word : Token
  opens : opensPredicate clause word = true
  condition : Stretch clause

structure Entry (clause : Clause) where
  item : Item clause
  predicate : Option (Predicate clause)

def Entry.tokens {clause : Clause} (e : Entry clause) : List Token :=
  e.item.tokens ++ match e.predicate with
    | some p => p.word :: p.condition.tokens
    | none => []

structure Separator (clause : Clause) where
  token : Token
  parts : parts clause token = true

structure Listing (clause : Clause) where
  first : Entry clause
  others : List (Separator clause × Entry clause)

namespace Listing

variable {clause : Clause}

def laterTokens (others : List (Separator clause × Entry clause)) : List Token :=
  others.flatMap fun x => x.1.token :: x.2.tokens

def tokens (l : Listing clause) : List Token := l.first.tokens ++ laterTokens l.others

def laterText (others : List (Separator clause × Entry clause)) : Text :=
  others.flatMap fun x => ',' :: x.2.item.text

def text (l : Listing clause) : Text := l.first.item.text ++ laterText l.others

def items (l : Listing clause) : List (Item clause) :=
  l.first.item :: l.others.map fun x => x.2.item

end Listing

/-- A statement with one SELECT and one FROM outside parentheses, in this order. Blanks, DISTINCT
and ALL may come before the columns, and a clause that ends a list after either list. -/
structure Statement where
  lead : List Token
  leadClosed : lead.foldl nest 0 = 0
  leadPlain : ∀ t, Outside 0 lead t → opensList t = false
  select : Token
  isSelect : select.isKeyword "SELECT" = true
  opening : List Token
  isOpening : ∀ t ∈ opening, (t.isWhitespace = true ∧ t.text.all Text.isBlank = true) ∨
    restricts t = true
  columns : Listing .select
  isFirst : ∀ t ∈ columns.first.item.tokens.head?,
    t.text.all Text.isBlank = false ∧ restricts t = false
  between : List Token
  betweenClosed : between.foldl nest 0 = 0
  betweenPlain : ∀ t, Outside 0 between t → opensList t = false
  betweenEnds : ∀ t ∈ between.head?, endsGroup t = true
  from_ : Token
  isFrom : from_.isKeyword "FROM" = true
  tables : Listing .from_
  rest : List Token
  restPlain : ∀ t, Outside 0 rest t → opensList t = false
  restEnds : ∀ t ∈ rest.head?, endsGroup t = true

def Statement.tokens (s : Statement) : List Token :=
  s.lead ++ s.select :: (s.opening ++ (s.columns.tokens ++
    (s.between ++ s.from_ :: (s.tables.tokens ++ s.rest))))

end Grammar

section Kinds

variable {t : Token} {clause : Clause}

theorem outside_cons (t : Token) (ts : List Token) : Outside 0 (t :: ts) t := ⟨[], ts, rfl, rfl⟩

theorem outside_nil {depth : Nat} : ¬ Outside depth [] t := by
  rintro ⟨front, back, e, _⟩
  cases front <;> cases e

theorem Outside.cons {depth : Nat} {ts : List Token} {u : Token} (h : Outside (nest depth t) ts u) :
    Outside depth (t :: ts) u := by
  obtain ⟨front, back, rfl, e⟩ := h
  exact ⟨t :: front, back, rfl, e⟩

theorem forall_outside_cons {depth : Nat} {ts : List Token} {p : Token → Prop} :
    (∀ u, Outside depth (t :: ts) u → p u) ↔
      (depth = 0 → p t) ∧ ∀ u, Outside (nest depth t) ts u → p u := by
  constructor
  · intro h
    refine ⟨?_, fun u hu => h u hu.cons⟩
    rintro rfl
    exact h t (outside_cons t ts)
  · rintro ⟨first, later⟩ u ⟨front, back, e, level⟩
    cases front with
    | nil =>
      obtain ⟨rfl, rfl⟩ := List.cons.inj e
      exact first level
    | cons v front =>
      obtain ⟨rfl, rfl⟩ := List.cons.inj e
      exact later u ⟨front, back, rfl, level⟩

instance decidableOutside (p : Token → Prop) [DecidablePred p] :
    (depth : Nat) → (ts : List Token) → Decidable (∀ t, Outside depth ts t → p t)
  | _, [] => .isTrue fun _ h => absurd h outside_nil
  | depth, t :: ts =>
    have := decidableOutside p (nest depth t) ts
    decidable_of_iff ((depth = 0 → p t) ∧ ∀ u, Outside (nest depth t) ts u → p u)
      forall_outside_cons.symm

theorem isAnyKeyword_apart {ws vs : List Text}
    (apart : ∀ w ∈ ws, ∀ v ∈ vs, Text.lower w ≠ Text.lower v) (h : t.isAnyKeyword ws = true) :
    t.isAnyKeyword vs = false := by
  obtain ⟨w, hw, is⟩ := List.any_eq_true.1 h
  apply List.any_eq_false.2
  intro v hv is'
  simp only [Token.isKeyword, Text.eqIgnoreCase, Bool.and_eq_true, beq_iff_eq] at is is'
  exact apart w hw v hv (is.2.symm.trans is'.2)

theorem isPunctuation_iff (t : Token) (c : Char) :
    t.isPunctuation c = true ↔ t.kind = .punctuation ∧ t.text = [c] := by
  simp [Token.isPunctuation]

theorem isPunctuation_of_keyword {w : Text} (h : t.isKeyword w = true) (c : Char) :
    t.isPunctuation c = false := by
  simp only [Token.isKeyword, Bool.and_eq_true, beq_iff_eq] at h
  simp [Token.isPunctuation, h.1]

end Kinds

section Gives

variable {clause : Clause} {depth : Nat} {inside inside' inside'' : Bool} {t : Token}
  {ts us : List Token} {text more : Text}

theorem endsGroup_of_isAnyKeyword {ws : List Text} (h : t.isAnyKeyword ws = true)
    (apart : ∀ w ∈ ws, ∀ v ∈ clauseEnders, Text.lower w ≠ Text.lower v) : endsGroup t = false := by
  obtain ⟨w, _, is⟩ := List.any_eq_true.1 h
  rw [endsGroup, isPunctuation_of_keyword is, isPunctuation_of_keyword is,
    isAnyKeyword_apart apart h]
  rfl

theorem isKeyword_select_of_from (h : t.isKeyword "FROM" = true) :
    t.isKeyword "SELECT" = false := by
  have known : t.isAnyKeyword (["FROM"] : List Text) = true := by
    simpa [Token.isAnyKeyword] using h
  have none : t.isAnyKeyword (["SELECT"] : List Text) = false :=
    isAnyKeyword_apart (by decide) known
  simpa [Token.isAnyKeyword] using none

theorem endsGroup_of_from (h : t.isKeyword "FROM" = true) : endsGroup t = true := by
  have known : t.isAnyKeyword clauseEnders = true := List.any_eq_true.2 ⟨"FROM", by decide, h⟩
  rw [endsGroup, known, Bool.or_true, Bool.true_or]

theorem nest_of_isKeyword {w : Text} (h : t.isKeyword w = true) : nest depth t = depth := by
  rw [nest, isPunctuation_of_keyword h, isPunctuation_of_keyword h]
  rfl

theorem step_within (h : depth = 0 → endsGroup t = false ∧ parts clause t = false ∧
      (inside = false → opensPredicate clause t = false)) :
    GroupState.step clause ⟨depth, false, inside⟩ t =
      some (if inside then [] else t.text, ⟨nest depth t, false, inside⟩) := by
  unfold GroupState.step
  by_cases top : depth = 0
  · obtain ⟨goesOn, single, bare⟩ := h top
    subst top
    cases clause with
    | select => simp [goesOn]
    | from_ =>
      cases inside with
      | false => simp_all [parts, opensPredicate]
      | true =>
        by_cases on : opensPredicate .from_ t = true
        · have level : nest 0 t = 0 := by
            rcases Bool.or_eq_true_iff.1 on with on | using_
            · exact nest_of_isKeyword on
            · exact nest_of_isKeyword using_
          simp_all [opensPredicate]
        · simp_all [parts, opensPredicate]
  · simp [top]

theorem step_predicate (h : opensPredicate clause t = true) :
    GroupState.step clause ⟨0, false, inside⟩ t = some ([], ⟨0, false, true⟩) := by
  cases clause with
  | select => cases h
  | from_ =>
    have on : t.isAnyKeyword (["ON", "USING"] : List Text) = true := by
      simpa [Token.isAnyKeyword, opensPredicate] using h
    have goesOn : endsGroup t = false := endsGroup_of_isAnyKeyword on (by decide)
    unfold GroupState.step
    simp_all [opensPredicate]

theorem step_comma (h : t.isPunctuation ',' = true) (plain : clause = .select → inside = false) :
    GroupState.step clause ⟨0, false, inside⟩ t = some ([','], ⟨0, false, false⟩) := by
  obtain ⟨kind, text⟩ := (isPunctuation_iff t ',').1 h
  have mark (c : Char) (other : c ≠ ',') : t.isPunctuation c = false := by
    simp [Token.isPunctuation, text, other.symm]
  have word (w : Text) : t.isKeyword w = false :=
    isKeyword_of_kind (kind ▸ TokenKind.noConfusion) w
  have goesOn : endsGroup t = false := by
    simp [endsGroup, mark, Token.isAnyKeyword, word]
  have level : nest 0 t = 0 := by simp [nest, mark]
  unfold GroupState.step
  cases clause with
  | select => simp [goesOn, level, plain rfl, text]
  | from_ => simp [goesOn, word, h]

theorem step_joinWord (h : t.isAnyKeyword joinWords = true) :
    GroupState.step .from_ ⟨0, false, inside⟩ t = some ([','], ⟨0, false, false⟩) := by
  have goesOn : endsGroup t = false := endsGroup_of_isAnyKeyword h (by decide)
  have on : t.isAnyKeyword (["ON", "USING"] : List Text) = false :=
    isAnyKeyword_apart (by decide) h
  unfold GroupState.step
  simp_all [Token.isAnyKeyword]

theorem step_separator (h : parts clause t = true) (plain : clause = .select → inside = false) :
    GroupState.step clause ⟨0, false, inside⟩ t = some ([','], ⟨0, false, false⟩) := by
  cases clause with
  | select => exact step_comma h plain
  | from_ =>
    rcases Bool.or_eq_true_iff.1 h with comma | join
    · exact step_comma comma plain
    · exact step_joinWord join

/-- Tokens give a text to their group from a depth of parentheses on, inside a join's predicate or
outside, and lead into one or out of it. Some of the group's text stands before them. -/
def Gives (clause : Clause) (depth : Nat) (inside : Bool) (ts : List Token) (text : Text)
    (inside' : Bool) : Prop :=
  ∀ rest, collectGroup clause ⟨depth, false, inside⟩ (ts ++ rest) =
    (text ++ (collectGroup clause ⟨0, false, inside'⟩ rest).1,
      (collectGroup clause ⟨0, false, inside'⟩ rest).2)

theorem Gives.nil : Gives clause 0 inside [] [] inside := fun _ => rfl

theorem Gives.cons {depth' : Nat} {between : Bool}
    (step : GroupState.step clause ⟨depth, false, inside⟩ t =
      some (text, ⟨depth', false, between⟩)) (h : Gives clause depth' between ts more inside') :
    Gives clause depth inside (t :: ts) (text ++ more) inside' := by
  intro rest
  rw [List.cons_append, collectGroup, step]
  simp only [h rest, List.append_assoc]

theorem Gives.append (h : Gives clause depth inside ts text inside')
    (h' : Gives clause 0 inside' us more inside'') :
    Gives clause depth inside (ts ++ us) (text ++ more) inside'' := by
  intro rest
  rw [List.append_assoc, h, h', List.append_assoc]

/-- By induction on the tokens: whether one stands outside parentheses is known from the depth
before it, and only then it could end an item. -/
theorem Gives.within (closed : ts.foldl nest depth = 0)
    (h : ∀ t, Outside depth ts t → endsGroup t = false ∧ parts clause t = false ∧
      (inside = false → opensPredicate clause t = false)) :
    Gives clause depth inside ts (if inside then [] else ts.flatMap Token.text) inside := by
  induction ts generalizing depth with
  | nil =>
    obtain rfl : depth = 0 := closed
    rw [List.flatMap_nil, ite_self]
    exact Gives.nil
  | cons t ts ih =>
    have first : depth = 0 → endsGroup t = false ∧ parts clause t = false ∧
        (inside = false → opensPredicate clause t = false) := by
      rintro rfl
      exact h t (outside_cons t ts)
    have all := Gives.cons (step_within first) (ih closed fun u hu => h u hu.cons)
    cases inside with
    | true => exact all
    | false => exact all

theorem Gives.item (i : Item clause) : Gives clause 0 false i.tokens i.text false :=
  Gives.within i.closed fun t ht => ⟨i.goesOn t ht, i.single t ht, fun _ => i.bare t ht⟩

theorem Gives.predicate (p : Predicate clause) :
    Gives clause 0 false (p.word :: p.condition.tokens) [] true := by
  have condition : Gives clause 0 true p.condition.tokens [] true :=
    Gives.within p.condition.closed fun t ht =>
      ⟨p.condition.goesOn t ht, p.condition.single t ht, Bool.noConfusion⟩
  exact Gives.cons (step_predicate p.opens) condition

theorem Gives.entry (e : Entry clause) :
    Gives clause 0 false e.tokens e.item.text e.predicate.isSome := by
  obtain ⟨item, predicate⟩ := e
  cases predicate with
  | none => simpa [Entry.tokens] using Gives.item item
  | some p => simpa [Entry.tokens] using (Gives.item item).append (Gives.predicate p)

theorem Entry.predicate_select (e : Entry .select) : e.predicate.isSome = false := by
  obtain ⟨item, predicate⟩ := e
  cases predicate with
  | none => rfl
  | some p => cases p.opens

theorem Gives.later (others : List (Separator clause × Entry clause))
    (plain : clause = .select → inside = false) :
    ∃ inside', Gives clause 0 inside (Listing.laterTokens others) (Listing.laterText others)
      inside' := by
  induction others generalizing inside with
  | nil => exact ⟨inside, Gives.nil⟩
  | cons x others ih =>
    have plain' : clause = .select → x.2.predicate.isSome = false := by
      rintro rfl
      exact x.2.predicate_select
    obtain ⟨inside', later⟩ := ih plain'
    have all : Gives clause 0 inside (x.1.token :: (x.2.tokens ++ Listing.laterTokens others))
        ([','] ++ (x.2.item.text ++ Listing.laterText others)) inside' :=
      Gives.cons (step_separator x.1.parts plain) ((Gives.entry x.2).append later)
    exact ⟨inside', all⟩

theorem Gives.listing (l : Listing clause) :
    ∃ inside', Gives clause 0 false l.tokens l.text inside' := by
  have plain : clause = .select → l.first.predicate.isSome = false := by
    rintro rfl
    exact l.first.predicate_select
  obtain ⟨inside', later⟩ := Gives.later l.others plain
  exact ⟨inside', (Gives.entry l.first).append later⟩

end Gives

section Groups

variable {clause : Clause} {depth : Nat} {leading inside : Bool} {ts front rest : List Token}

/-- No list of tables depends on whether its text so far is blank. -/
theorem collectGroup_tables_leading :
    collectGroup .from_ ⟨depth, leading, inside⟩ ts =
      collectGroup .from_ ⟨depth, false, inside⟩ ts := by
  induction ts generalizing depth leading inside with
  | nil => rfl
  | cons t ts ih =>
    rw [collectGroup, collectGroup]
    unfold GroupState.step
    by_cases top : depth = 0
    · by_cases ends : endsGroup t = true
      · simp only [top, ends, if_true]
      · by_cases on : (t.isKeyword "ON" || t.isKeyword "USING") = true
        · simp only [top, ends, on, Bool.false_eq_true, if_true, if_false, @ih 0 leading true]
        · by_cases apart : (t.isPunctuation ',' || t.isAnyKeyword joinWords) = true
          · simp only [top, ends, on, apart, Bool.false_eq_true, if_true, if_false]
          · simp only [top, ends, on, apart, Bool.false_eq_true, if_true, if_false,
              @ih (nest 0 t) (leading && _) inside, Bool.false_and]
    · simp only [top, if_false, @ih (nest depth t) (leading && _) inside, Bool.false_and]

theorem collectGroup_columns_leading (h : ∀ t ∈ ts.head?, endsGroup t = true ∨
      t.text.all Text.isBlank = false ∧ restricts t = false) :
    collectGroup .select ⟨0, true, false⟩ ts = collectGroup .select ⟨0, false, false⟩ ts := by
  cases ts with
  | nil => rfl
  | cons t ts =>
    rw [collectGroup, collectGroup]
    unfold GroupState.step
    rcases h t rfl with ends | ⟨solid, free⟩
    · simp [ends]
    · have free : (t.isKeyword "DISTINCT" || t.isKeyword "ALL") = false := free
      simp only [solid, free, Bool.and_false, Bool.false_eq_true, if_false]

theorem collectGroup_opening (h : ∀ t ∈ front, (t.isWhitespace = true ∧
      t.text.all Text.isBlank = true) ∨ restricts t = true) :
    ∃ blank, (∀ c ∈ blank, Text.isBlank c = true) ∧
      collectGroup .select ⟨0, true, false⟩ (front ++ rest) =
        (blank ++ (collectGroup .select ⟨0, true, false⟩ rest).1,
          (collectGroup .select ⟨0, true, false⟩ rest).2) := by
  induction front with
  | nil => exact ⟨[], List.forall_mem_nil _, rfl⟩
  | cons t front ih =>
    obtain ⟨first, h⟩ := List.forall_mem_cons.1 h
    obtain ⟨blank, blanks, e⟩ := ih h
    rcases first with ⟨space, none⟩ | restricted
    · have kind : t.kind = .whitespace := by simpa [Token.isWhitespace] using space
      have mark (c : Char) : t.isPunctuation c = false := by simp [Token.isPunctuation, kind]
      have word (w : Text) : t.isKeyword w = false :=
        isKeyword_of_kind (kind ▸ TokenKind.noConfusion) w
      have step : GroupState.step .select ⟨0, true, false⟩ t =
          some (t.text, ⟨0, true, false⟩) := by
        simp [GroupState.step, endsGroup, Token.isAnyKeyword, nest, mark, word, none]
      refine ⟨t.text ++ blank, ?_, ?_⟩
      · intro c hc
        rcases List.mem_append.1 hc with hc | hc
        · exact List.all_eq_true.1 none c hc
        · exact blanks c hc
      · rw [List.cons_append, collectGroup, step]
        simp only [e, List.append_assoc]
    · have goesOn : endsGroup t = false := by
        have known : t.isAnyKeyword (["DISTINCT", "ALL"] : List Text) = true := by
          simpa [Token.isAnyKeyword, restricts] using restricted
        exact endsGroup_of_isAnyKeyword known (by decide)
      have step : GroupState.step .select ⟨0, true, false⟩ t = some ([], ⟨0, true, false⟩) := by
        have known : (t.isKeyword "DISTINCT" || t.isKeyword "ALL") = true := restricted
        unfold GroupState.step
        simp only [goesOn, known, Bool.true_and, Bool.false_eq_true, if_true, if_false]
      refine ⟨blank, blanks, ?_⟩
      rw [List.cons_append, collectGroup, step]
      exact e

theorem collectGroup_ends (h : ∀ t ∈ rest.head?, endsGroup t = true) :
    collectGroup clause ⟨0, leading, inside⟩ rest = ([], rest) := by
  cases rest with
  | nil => rfl
  | cons t rest => exact collectGroup_end clause leading inside (h t rfl) rest

theorem Listing.collectGroup (l : Listing clause) (h : ∀ t ∈ rest.head?, endsGroup t = true) :
    Query.collectGroup clause ⟨0, false, false⟩ (l.tokens ++ rest) = (l.text, rest) := by
  obtain ⟨inside', gives⟩ := Gives.listing l
  rw [gives, collectGroup_ends h, List.append_nil]

theorem Listing.head_columns (l : Listing .select)
    (first : ∀ t ∈ l.first.item.tokens.head?,
      t.text.all Text.isBlank = false ∧ restricts t = false)
    (h : ∀ t ∈ rest.head?, endsGroup t = true) : ∀ t ∈ (l.tokens ++ rest).head?,
      endsGroup t = true ∨ t.text.all Text.isBlank = false ∧ restricts t = false := by
  obtain ⟨⟨item, predicate⟩, others⟩ := l
  have single : predicate = none := by
    simpa using Entry.predicate_select ⟨item, predicate⟩
  subst single
  cases e : item.tokens with
  | cons t ts =>
    intro u hu
    have same : t = u := by simpa [tokens, Entry.tokens, e] using hu
    exact .inr (first u (by simp [e, same]))
  | nil =>
    cases others with
    | nil => simpa [tokens, laterTokens, Entry.tokens, e] using fun t ht => .inl (h t ht)
    | cons x others =>
      intro u hu
      have same : x.1.token = u := by simpa [tokens, laterTokens, Entry.tokens, e] using hu
      obtain ⟨kind, text⟩ := (isPunctuation_iff u ',').1 (same ▸ x.1.parts)
      have word (w : Text) : u.isKeyword w = false :=
        isKeyword_of_kind (kind ▸ TokenKind.noConfusion) w
      refine .inr ⟨?_, ?_⟩
      · rw [text]
        rfl
      · simp [restricts, word]

theorem ofTokensFrom_plain (plain : ∀ t, Outside depth front t → opensList t = false) :
    References.ofTokensFrom depth (front ++ rest) =
      References.ofTokensFrom (front.foldl nest depth) rest := by
  induction front generalizing depth with
  | nil => rfl
  | cons t front ih =>
    have later := ih fun u hu => plain u hu.cons
    rw [List.cons_append, References.ofTokensFrom, List.foldl_cons]
    by_cases paren : (t.isPunctuation '(' || t.isPunctuation ')') = true
    · rw [if_pos paren]
      exact later
    · have level : nest depth t = depth := by simp_all [nest]
      rw [level] at later ⊢
      by_cases top : depth = 0
      · subst top
        have none := plain t (outside_cons t front)
        simp_all [opensList]
      · simp_all

end Groups

section Texts

variable {clause : Clause} {s : Text}

theorem references_blank_append {blank : Text} (h : ∀ c ∈ blank, Text.isBlank c = true) :
    references (blank ++ s) = references s := by
  have whole (t : Text) (none : ',' ∉ t) : references (blank ++ t) = references t := by
    have none' : ',' ∉ blank ++ t := by
      rw [List.mem_append, not_or]
      exact ⟨Text.not_mem_of_blank h (by decide), none⟩
    rw [references_of_no_comma none, references_of_no_comma none', Text.words_gap_append h]
  by_cases comma : ',' ∈ s
  · obtain ⟨first, later, rfl, none⟩ := List.eq_append_cons_of_mem comma
    rw [← List.append_assoc, references_append_comma, references_append_comma, whole first none]
  · exact whole s comma

theorem references_ne_nil {c : Char} (hc : c ∈ s) (solid : Text.isBlank c = false)
    (other : c ≠ ',') : references s ≠ [] := by
  have held : ∃ piece ∈ Text.pieces ',' s, c ∈ piece :=
    Text.exists_mem_cut hc (by simpa using other)
  obtain ⟨piece, hp, inside⟩ := held
  cases e : (Text.words piece).getLast? with
  | none => exact absurd (List.getLast?_eq_none_iff.1 e) (Text.words_ne_nil inside solid)
  | some w => exact List.ne_nil_of_mem (List.mem_filterMap.2 ⟨piece, hp, e⟩)

theorem references_laterText (others : List (Separator clause × Entry clause)) :
    references (s ++ Listing.laterText others) =
      references s ++ others.flatMap fun x => references x.2.item.text := by
  induction others generalizing s with
  | nil => simp [Listing.laterText]
  | cons x others ih =>
    have later : Listing.laterText (x :: others) =
        ',' :: (x.2.item.text ++ Listing.laterText others) := rfl
    rw [later, references_append_comma, ih, List.flatMap_cons]

theorem Listing.references_text (l : Listing clause) :
    references l.text = l.items.flatMap fun i => references i.text := by
  rw [text, references_laterText, items, List.flatMap_cons, List.flatMap_map]

/-- A text with parentheses that hold all its commas. -/
structure Parenthesized where
  before : Text
  inside : Text
  after : Text
  beforeWhole : ',' ∉ before
  afterWhole : ',' ∉ after

def Parenthesized.text (p : Parenthesized) : Text :=
  p.before ++ '(' :: (p.inside ++ ')' :: p.after)

theorem Parenthesized.length_references_eq_one_iff (p : Parenthesized) :
    (references p.text).length = 1 ↔ ',' ∉ p.inside := by
  obtain ⟨before, inside, after, beforeWhole, afterWhole⟩ := p
  constructor
  · intro one comma
    obtain ⟨front, back, rfl⟩ := List.append_of_mem comma
    have two : text ⟨before, front ++ ',' :: back, after, beforeWhole, afterWhole⟩ =
        (before ++ '(' :: front) ++ ',' :: (back ++ ')' :: after) := by simp [text]
    have first : references (before ++ '(' :: front) ≠ [] :=
      references_ne_nil (c := '(') (by simp) (by decide) (by decide)
    have last : references (back ++ ')' :: after) ≠ [] :=
      references_ne_nil (c := ')') (by simp) (by decide) (by decide)
    rw [two, references_append_comma, List.length_append] at one
    have := List.length_pos_iff.2 first
    have := List.length_pos_iff.2 last
    omega
  · intro whole
    have none : ',' ∉ text ⟨before, inside, after, beforeWhole, afterWhole⟩ := by
      simp_all [text]
    have word : Text.words (text ⟨before, inside, after, beforeWhole, afterWhole⟩) ≠ [] :=
      Text.words_ne_nil (c := '(') (by simp [text]) (by decide)
    rw [references_of_no_comma none, List.getLast?_eq_some_getLast word]
    rfl

structure DerivedTable where
  before : Blanks
  inside : Text
  gap : Space
  name : Text
  named : name ≠ []
  solid : ∀ c ∈ name, Text.isBlank c = false
  whole : ',' ∉ name
  after : Blanks

def DerivedTable.text (d : DerivedTable) : Text :=
  d.before.text ++ '(' :: (d.inside ++ ')' :: (d.gap.text ++ (d.name ++ d.after.text)))

/-- Its name is the last of its references, and the only one as long as the parentheses hold no
comma. -/
theorem DerivedTable.references_text (d : DerivedTable) : ∃ others,
    references d.text = others ++ [d.name] ∧ (others = [] ↔ ',' ∉ d.inside) := by
  have blank (b : Blanks) : ',' ∉ b.text := Text.not_mem_of_blank b.blank (by decide)
  have last (front : Text) (none : ',' ∉ front) :
      references (front ++ ')' :: (d.gap.text ++ (d.name ++ d.after.text))) = [d.name] := by
    have none' : ',' ∉ front ++ ')' :: (d.gap.text ++ (d.name ++ d.after.text)) := by
      simp [none, blank, d.whole]
    rw [references_of_no_comma none', ← List.singleton_append, ← List.append_assoc,
      Text.words_append_gap d.gap.filled d.gap.blank, Text.words_append_of_blank d.after.blank,
      Text.words_of_solid d.named d.solid, List.getLast?_concat]
    rfl
  by_cases comma : ',' ∈ d.inside
  · obtain ⟨back, front, e, none⟩ := List.eq_append_cons_of_mem (List.mem_reverse.2 comma)
    have split : d.inside = front.reverse ++ ',' :: back.reverse := by
      rw [← List.reverse_reverse d.inside, e]
      simp
    have parted : d.text = (d.before.text ++ '(' :: front.reverse) ++ ',' ::
        (back.reverse ++ ')' :: (d.gap.text ++ (d.name ++ d.after.text))) := by
      simp [text, split]
    have first : references (d.before.text ++ '(' :: front.reverse) ≠ [] :=
      references_ne_nil (c := '(') (by simp) (by decide) (by decide)
    refine ⟨references (d.before.text ++ '(' :: front.reverse), ?_, by simp [first, comma]⟩
    rw [parted, references_append_comma, last _ (by simpa using none)]
  · have only := last (d.before.text ++ '(' :: d.inside) (by simp [blank, comma])
    refine ⟨[], ?_, by simp [comma]⟩
    rw [List.append_assoc] at only
    exact only

end Texts

section Statements

variable {clause : Clause}

theorem map_some_references {is : List (Item clause)}
    (h : ∀ i ∈ is, ',' ∉ i.text ∧ Text.words i.text ≠ []) :
    (is.flatMap fun i => references i.text).map some =
      is.map fun i => (Text.words i.text).getLast? := by
  induction is with
  | nil => rfl
  | cons i is ih =>
    obtain ⟨⟨whole, filled⟩, h⟩ := List.forall_mem_cons.1 h
    rw [List.flatMap_cons, List.map_append, ih h, List.map_cons, references_of_no_comma whole,
      List.getLast?_eq_some_getLast filled]
    rfl

namespace Statement

variable (s : Statement)

theorem collectGroup_columns : ∃ blank, (∀ c ∈ blank, Text.isBlank c = true) ∧
    collectGroup .select .start (s.opening ++ (s.columns.tokens ++
        (s.between ++ s.from_ :: (s.tables.tokens ++ s.rest)))) =
      (blank ++ s.columns.text, s.between ++ s.from_ :: (s.tables.tokens ++ s.rest)) := by
  have ends : ∀ t ∈ (s.between ++ s.from_ :: (s.tables.tokens ++ s.rest)).head?,
      endsGroup t = true := by
    cases e : s.between with
    | nil =>
      intro t ht
      obtain rfl : s.from_ = t := Option.some.inj ht
      exact endsGroup_of_from s.isFrom
    | cons u us => exact fun t ht => s.betweenEnds t (by rw [e]; exact ht)
  obtain ⟨blank, blanks, opened⟩ := collectGroup_opening s.isOpening
  refine ⟨blank, blanks, ?_⟩
  rw [GroupState.start, opened, collectGroup_columns_leading
    (s.columns.head_columns s.isFirst ends), s.columns.collectGroup ends]

theorem collectGroup_tables :
    collectGroup .from_ .start (s.tables.tokens ++ s.rest) = (s.tables.text, s.rest) := by
  rw [GroupState.start, collectGroup_tables_leading, s.tables.collectGroup s.restEnds]

theorem ofTokens_tokens : References.ofTokens s.tokens =
    ⟨s.tables.items.flatMap fun i => references i.text,
      s.columns.items.flatMap fun i => references i.text⟩ := by
  have rest : References.ofTokensFrom 0 s.rest = ⟨[], []⟩ := by
    have all : References.ofTokensFrom 0 (s.rest ++ []) = _ := ofTokensFrom_plain s.restPlain
    rw [List.append_nil, References.ofTokensFrom] at all
    exact all
  have tables : References.ofTokensFrom 0 (s.from_ :: (s.tables.tokens ++ s.rest)) =
      ⟨s.tables.items.flatMap fun i => references i.text, []⟩ := by
    rw [References.ofTokensFrom, isPunctuation_of_keyword s.isFrom,
      isPunctuation_of_keyword s.isFrom, isKeyword_select_of_from s.isFrom, s.isFrom]
    simp only [s.collectGroup_tables, rest, Listing.references_text, List.append_nil]
    rfl
  obtain ⟨blank, blanks, columns⟩ := s.collectGroup_columns
  rw [References.ofTokens, tokens, ofTokensFrom_plain s.leadPlain, s.leadClosed,
    References.ofTokensFrom, isPunctuation_of_keyword s.isSelect,
    isPunctuation_of_keyword s.isSelect, s.isSelect]
  simp only [columns, ofTokensFrom_plain s.betweenPlain, s.betweenClosed, tables,
    references_blank_append blanks, Listing.references_text, List.append_nil]
  rfl

/-- A query refers to what its items are cut into at their commas: each to its last word if it has
none. Parentheses make no difference to that, so a call with several arguments is several references
and a derived table with several columns brings in more than its name. -/
theorem ofQuery_items {query : Text} (h : tokenize query = .ok s.tokens) :
    References.ofQuery query =
        ⟨s.tables.items.flatMap fun i => references i.text,
          s.columns.items.flatMap fun i => references i.text⟩ ∧
      ((∀ i ∈ s.columns.items, ',' ∉ i.text ∧ Text.words i.text ≠ []) →
        (References.ofQuery query).columns.map some =
          s.columns.items.map fun i => (Text.words i.text).getLast?) ∧
      ((∀ i ∈ s.tables.items, ',' ∉ i.text ∧ Text.words i.text ≠ []) →
        (References.ofQuery query).tables.map some =
          s.tables.items.map fun i => (Text.words i.text).getLast?) ∧
      (∀ i ∈ s.columns.items, ∀ p : Parenthesized, i.text = p.text →
        ((references i.text).length = 1 ↔ ',' ∉ p.inside)) ∧
      ∀ i ∈ s.tables.items, ∀ d : DerivedTable, i.text = d.text →
        ∃ others, references i.text = others ++ [d.name] ∧ (others = [] ↔ ',' ∉ d.inside) := by
  have read : References.ofQuery query = References.ofTokens s.tokens := by
    rw [References.ofQuery, h]
  rw [read, s.ofTokens_tokens]
  refine ⟨rfl, map_some_references, map_some_references, ?_, ?_⟩
  · intro i _ p e
    rw [e]
    exact p.length_references_eq_one_iff
  · intro i _ d e
    rw [e]
    exact d.references_text

end Statement

def fromPair : Statement where
  lead := []
  leadClosed := rfl
  leadPlain := by decide
  select := ⟨.keyword, "SELECT", 0⟩
  isSelect := by decide
  opening := [⟨.whitespace, " ", 1⟩]
  isOpening := by decide
  columns :=
    { first :=
        { item :=
            { tokens := [⟨.identifier, "max", 2⟩, ⟨.punctuation, "(", 3⟩, ⟨.identifier, "a", 4⟩,
                ⟨.punctuation, ")", 5⟩]
              closed := by decide
              goesOn := by decide
              single := by decide
              bare := by decide }
          predicate := none }
      others := [(⟨⟨.punctuation, ",", 6⟩, by decide⟩,
        { item :=
            { tokens := [⟨.whitespace, " ", 7⟩, ⟨.identifier, "b", 8⟩, ⟨.whitespace, " ", 9⟩]
              closed := by decide
              goesOn := by decide
              single := by decide
              bare := by decide }
          predicate := none })] }
  isFirst := by decide
  between := []
  betweenClosed := rfl
  betweenPlain := by decide
  betweenEnds := by decide
  from_ := ⟨.keyword, "FROM", 10⟩
  isFrom := by decide
  tables :=
    { first :=
        { item :=
            { tokens := [⟨.whitespace, " ", 11⟩, ⟨.punctuation, "(", 12⟩, ⟨.keyword, "SELECT", 13⟩,
                ⟨.whitespace, " ", 14⟩, ⟨.identifier, "d", 15⟩, ⟨.punctuation, ",", 16⟩,
                ⟨.whitespace, " ", 17⟩, ⟨.identifier, "e", 18⟩, ⟨.whitespace, " ", 19⟩,
                ⟨.keyword, "FROM", 20⟩, ⟨.whitespace, " ", 21⟩, ⟨.identifier, "u", 22⟩,
                ⟨.punctuation, ")", 23⟩, ⟨.whitespace, " ", 24⟩, ⟨.identifier, "x", 25⟩]
              closed := by decide
              goesOn := by decide
              single := by decide
              bare := by decide }
          predicate := none }
      others := [] }
  rest := []
  restPlain := by decide
  restEnds := by decide

def fromPairText : Text := "SELECT max(a), b FROM (SELECT d, e FROM u) x"

theorem tokenize_fromPair : tokenize fromPairText = .ok fromPair.tokens := by
  have cut : (tokenize fromPairText).toOption = some fromPair.tokens := by decide +kernel
  cases e : tokenize fromPairText with
  | error fault =>
    rw [e] at cut
    cases cut
  | ok ts =>
    rw [e] at cut
    rw [Option.some.inj cut]

theorem Statement.ofQuery_fromPair :
    References.ofQuery fromPairText =
        ⟨["d".toList, "x".toList], ["max(a)".toList, "b".toList]⟩ ∧
      (References.ofQuery fromPairText).columns.map some =
        [some "max(a)".toList, some "b".toList] ∧
      ∃ others, references " (SELECT d, e FROM u) x" = others ++ ["x".toList] ∧ others ≠ [] := by
  obtain ⟨cut, columns, _, _, derived⟩ := fromPair.ofQuery_items tokenize_fromPair
  refine ⟨?_, ?_, ?_⟩
  · rw [cut]
    decide +kernel
  · rw [columns (by decide)]
    decide +kernel
  · let d : DerivedTable :=
      { before := ⟨" ", List.forall_mem_singleton.2 rfl⟩
        inside := "SELECT d, e FROM u"
        gap := ⟨⟨" ", List.forall_mem_singleton.2 rfl⟩, by decide⟩
        name := "x"
        named := by decide
        solid := List.forall_mem_singleton.2 rfl
        whole := by decide
        after := ⟨[], List.forall_mem_nil _⟩ }
    obtain ⟨others, last, only⟩ := derived _ (List.mem_singleton.2 rfl) d (by decide)
    exact ⟨others, last, fun none => only.1 none (by decide)⟩

/-- More tables are found than the list has items, and more columns where a call has two
arguments. -/
theorem references_per_item_exceeded :
    (References.ofQuery fromPairText).tables.length = 2 ∧ fromPair.tables.items.length = 1 ∧
      (References.ofQuery "SELECT coalesce(a, b) FROM t").columns =
        ["coalesce(a".toList, "b)".toList] ∧
      ¬ ∀ (s : Statement) (query : Text), tokenize query = .ok s.tokens →
        (References.ofQuery query).tables.length = s.tables.items.length := by
  have two : (References.ofQuery fromPairText).tables.length = 2 := by decide +kernel
  refine ⟨two, rfl, by decide +kernel, ?_⟩
  intro single
  have one := single fromPair fromPairText tokenize_fromPair
  rw [two] at one
  cases one

end Statements

end SqlReview.Query.TopLevel
