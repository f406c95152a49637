import SqlReview.Proofs.Query.Branches
import SqlReview.Sql.Statement

/-!
Statements that begin with common table expressions. Whatever the expressions hold in their
parentheses, the kind is that of the statement that opens behind them.
-/
namespace SqlReview.Query.CommonTables

open Sql
open TopLevel (Outside forall_outside_cons outside_nil isPunctuation_iff isPunctuation_of_keyword)
open Branches (Paired foldl_nest_add_closed)

section Grammar

def mainKinds : List StatementKind := [.select, .insert, .update, .delete]

def opensMain (t : Token) : Bool := t.isAnyKeyword (mainKinds.map StatementKind.keyword)

/-- Whether neither a statement nor a parenthesis opens or closes at the token, as at blanks,
comments and words such as RECURSIVE. -/
def isFiller (t : Token) : Bool :=
  !opensMain t && !(t.isPunctuation '(' || t.isPunctuation ')')

structure Filler where
  tokens : List Token
  plain : ∀ t ∈ tokens, isFiller t = true

structure Enclosed where
  opening : Token
  opens : opening.isPunctuation '(' = true
  content : List Token
  paired : Paired content
  closing : Token
  closes : closing.isPunctuation ')' = true

def Enclosed.tokens (e : Enclosed) : List Token := e.opening :: (e.content ++ [e.closing])

/-- A common table expression: its name, its columns if they are listed, AS and its body. -/
structure Definition where
  name : Token
  isName : isFiller name = true
  afterName : Filler
  columns : Option (Enclosed × Filler)
  as_ : Token
  isAs : as_.isKeyword "AS" = true
  afterAs : Filler
  body : Enclosed

def Definition.columnTokens (d : Definition) : List Token :=
  d.columns.elim [] fun c => c.1.tokens ++ c.2.tokens

def Definition.tokens (d : Definition) : List Token :=
  d.name :: (d.afterName.tokens ++ (d.columnTokens ++
    d.as_ :: (d.afterAs.tokens ++ d.body.tokens)))

structure Comma where
  before : Filler
  mark : Token
  isComma : mark.isPunctuation ',' = true
  after : Filler

def Comma.tokens (c : Comma) : List Token := c.before.tokens ++ c.mark :: c.after.tokens

/-- The beginning of a statement, up to where the statement behind the expressions is looked for. -/
structure Expressions where
  lead : List Token
  skipped : ∀ t ∈ lead, t.isWhitespace = true ∨ t.isPunctuation '(' = true
  with_ : Token
  isWith : with_.isKeyword "WITH" = true
  afterWith : Filler
  first : Definition
  others : List (Comma × Definition)
  rest : Filler

def Expressions.listTokens (e : Expressions) : List Token :=
  e.afterWith.tokens ++ (e.first.tokens ++
    ((e.others.flatMap fun x => x.1.tokens ++ x.2.tokens) ++ e.rest.tokens))

def Expressions.tokens (e : Expressions) : List Token := e.lead ++ e.with_ :: e.listTokens

/-- Tokens at which no statement opens, with any further definitions between them. Parentheses may
open and close among them in any order. -/
inductive Trail : List Token → Prop
  | nil : Trail []
  | token {t : Token} {ts : List Token} (quiet : opensMain t = false) (later : Trail ts) :
      Trail (t :: ts)
  | definition (d : Definition) {ts : List Token} (later : Trail ts) : Trail (d.tokens ++ ts)

end Grammar

section Kinds

variable {t : Token} {kind : StatementKind}

theorem ofKeyword_eq_iff (known : kind ≠ .unknown) (word : Text) :
    StatementKind.ofKeyword word = kind ↔ Text.eqIgnoreCase word kind.keyword = true := by
  have capitals : Text.upper kind.keyword = kind.keyword := by cases kind <;> decide
  have alike : Text.eqIgnoreCase word kind.keyword = true ↔ Text.upper word = kind.keyword := by
    rw [Text.eqIgnoreCase, beq_iff_eq]
    exact Text.alike_iff_upper.trans (by rw [capitals])
  rw [alike]
  unfold StatementKind.ofKeyword
  constructor
  · intro h
    cases found :
        StatementKind.all.find? fun k => k != .unknown && k.keyword == Text.upper word with
    | none =>
      rw [found] at h
      exact absurd h.symm known
    | some k =>
      rw [found] at h
      obtain rfl : k = kind := h
      have spelled := List.find?_some found
      rw [Bool.and_eq_true, beq_iff_eq] at spelled
      exact spelled.2.symm
  · intro h
    rw [h]
    cases kind with
    | unknown => exact absurd rfl known
    | _ => decide

theorem ofKeyword_of_isKeyword (known : kind ≠ .unknown) (h : t.isKeyword kind.keyword = true) :
    t.kind = .keyword ∧ StatementKind.ofKeyword t.text = kind := by
  rw [Token.isKeyword, Bool.and_eq_true, beq_iff_eq] at h
  exact ⟨h.1, (ofKeyword_eq_iff known t.text).2 h.2⟩

theorem readsOrWrites_iff : kind.readsOrWrites = true ↔ kind ∈ mainKinds := by
  cases kind <;> decide

theorem ne_unknown_of_mem_mainKinds (h : kind ∈ mainKinds) : kind ≠ .unknown := by
  rintro rfl
  exact absurd h (by decide)

theorem opensMain_iff :
    opensMain t = true ↔ ∃ kind ∈ mainKinds, t.isKeyword kind.keyword = true := by
  simp [opensMain, Token.isAnyKeyword]

theorem stops_iff_opensMain :
    (t.kind = .keyword ∧ (StatementKind.ofKeyword t.text).readsOrWrites = true) ↔
      opensMain t = true := by
  rw [opensMain_iff]
  constructor
  · rintro ⟨word, reads⟩
    have main := readsOrWrites_iff.1 reads
    refine ⟨_, main, ?_⟩
    rw [Token.isKeyword, word,
      (ofKeyword_eq_iff (ne_unknown_of_mem_mainKinds main) t.text).1 rfl]
    rfl
  · rintro ⟨kind, main, h⟩
    obtain ⟨word, e⟩ := ofKeyword_of_isKeyword (ne_unknown_of_mem_mainKinds main) h
    exact ⟨word, e ▸ readsOrWrites_iff.2 main⟩

end Kinds

section Search

variable {t : Token} {ts us : List Token} {depth : Nat}

theorem forall_outside_append {p : Token → Prop} : (∀ t, Outside depth (ts ++ us) t → p t) ↔
    (∀ t, Outside depth ts t → p t) ∧ ∀ t, Outside (ts.foldl nest depth) us t → p t := by
  induction ts generalizing depth with
  | nil => exact (and_iff_right fun _ h => absurd h outside_nil).symm
  | cons t ts ih =>
    rw [List.cons_append, forall_outside_cons, ih, forall_outside_cons, and_assoc, List.foldl_cons]

theorem afterExpressions_cons (quiet : depth = 0 → opensMain t = false) (ts : List Token) :
    StatementKind.afterExpressions depth (t :: ts) =
      StatementKind.afterExpressions (nest depth t) ts := by
  rw [StatementKind.afterExpressions, nest]
  split
  · rfl
  · split
    · rfl
    · rw [if_neg]
      rintro ⟨outside, stops⟩
      rw [stops_iff_opensMain, quiet outside] at stops
      cases stops

/-- By induction on the tokens, the depth before each telling whether it stands outside. -/
theorem afterExpressions_append (h : ∀ t, Outside depth ts t → opensMain t = false)
    (us : List Token) : StatementKind.afterExpressions depth (ts ++ us) =
      StatementKind.afterExpressions (ts.foldl nest depth) us := by
  induction ts generalizing depth with
  | nil => rfl
  | cons t ts ih =>
    obtain ⟨first, later⟩ := forall_outside_cons.1 h
    rw [List.cons_append, afterExpressions_cons first, ih later, List.foldl_cons]

theorem afterExpressions_main {kind : StatementKind} (main : kind ∈ mainKinds)
    (opens : t.isKeyword kind.keyword = true) (rest : List Token) :
    StatementKind.afterExpressions 0 (t :: rest) = kind := by
  obtain ⟨word, e⟩ := ofKeyword_of_isKeyword (ne_unknown_of_mem_mainKinds main) opens
  rw [StatementKind.afterExpressions, isPunctuation_of_keyword opens,
    isPunctuation_of_keyword opens, if_neg Bool.false_ne_true, if_neg Bool.false_ne_true,
    if_pos ⟨rfl, word, e ▸ readsOrWrites_iff.2 main⟩, e]

/-- No statement opens outside parentheses, however many are open before. -/
def Quiet (ts : List Token) : Prop := ∀ depth t, Outside depth ts t → opensMain t = false

theorem Quiet.nil : Quiet [] := fun _ _ h => absurd h outside_nil

theorem Quiet.cons (first : opensMain t = false) (later : Quiet ts) : Quiet (t :: ts) := fun _ =>
  forall_outside_cons.2 ⟨fun _ => first, later _⟩

theorem Quiet.append (first : Quiet ts) (later : Quiet us) : Quiet (ts ++ us) := fun depth =>
  forall_outside_append.2 ⟨first depth, later _⟩

theorem Quiet.afterExpressions (h : Quiet ts) (depth : Nat) :
    StatementKind.afterExpressions depth ts = .with_ := by
  have all := afterExpressions_append (h depth) []
  rwa [List.append_nil, StatementKind.afterExpressions] at all

/-- Tokens that a search passes over: what is open after them is what is open before. -/
structure Skipped (ts : List Token) : Prop where
  quiet : Quiet ts
  level : ∀ depth, ts.foldl nest depth = depth

namespace Skipped

theorem nil : Skipped [] := ⟨.nil, fun _ => rfl⟩

theorem cons (quiet : opensMain t = false) (flat : ∀ depth, nest depth t = depth)
    (later : Skipped ts) : Skipped (t :: ts) :=
  ⟨later.quiet.cons quiet, fun depth => by rw [List.foldl_cons, flat, later.level]⟩

theorem append (first : Skipped ts) (later : Skipped us) : Skipped (ts ++ us) :=
  ⟨first.quiet.append later.quiet, fun depth => by
    rw [List.foldl_append, first.level, later.level]⟩

theorem afterExpressions (h : Skipped ts) (us : List Token) :
    StatementKind.afterExpressions 0 (ts ++ us) = StatementKind.afterExpressions 0 us := by
  rw [afterExpressions_append (h.quiet 0), h.level]

theorem cons_filler (filler : isFiller t = true) (later : Skipped ts) : Skipped (t :: ts) := by
  simp only [isFiller, Bool.and_eq_true, Bool.not_eq_true', Bool.or_eq_false_iff] at filler
  obtain ⟨quiet, opens, closes⟩ := filler
  exact cons quiet (fun depth => by simp [nest, opens, closes]) later

end Skipped

end Search

section Parts

variable {t : Token}

theorem opensMain_of_isPunctuation {c : Char} (h : t.isPunctuation c = true) :
    opensMain t = false := by
  have kind := ((isPunctuation_iff t c).1 h).1
  have word : t.kind ≠ .keyword := by
    rw [kind]
    exact TokenKind.noConfusion
  simp [opensMain, Token.isAnyKeyword, isKeyword_of_kind word]

theorem isFiller_of_as (h : t.isKeyword "AS" = true) : isFiller t = true := by
  have as_ : t.isAnyKeyword (["AS"] : List Text) = true := by
    simpa [Token.isAnyKeyword] using h
  have quiet : opensMain t = false := TopLevel.isAnyKeyword_apart (by decide) as_
  rw [isFiller, quiet, isPunctuation_of_keyword h, isPunctuation_of_keyword h]
  rfl

theorem isFiller_of_comma (h : t.isPunctuation ',' = true) : isFiller t = true := by
  have text := ((isPunctuation_iff t ',').1 h).2
  simp [isFiller, opensMain_of_isPunctuation h, Token.isPunctuation, text]

theorem Filler.skipped (f : Filler) : Skipped f.tokens := by
  obtain ⟨ts, plain⟩ := f
  induction ts with
  | nil => exact .nil
  | cons t ts ih =>
    obtain ⟨first, plain⟩ := List.forall_mem_cons.1 plain
    exact (ih plain).cons_filler first

theorem Enclosed.skipped (e : Enclosed) : Skipped e.tokens := by
  have inside (depth : Nat) : nest depth e.opening = depth + 1 := by
    rw [nest, if_pos e.opens]
  have after (depth : Nat) : nest (depth + 1) e.closing = depth := by
    obtain ⟨kind, text⟩ := (isPunctuation_iff e.closing ')').1 e.closes
    simp [nest, Token.isPunctuation, kind, text]
  have hidden (depth : Nat) (t : Token) : ¬ Outside (depth + 1) e.content t := by
    rintro ⟨front, back, parted, outside⟩
    have sub (front' : List Token) (h : front' <+: front) : front' <+: e.content :=
      h.trans (parted ▸ List.prefix_append front _)
    have open_ := foldl_nest_add_closed (depth + 1) fun front' h =>
      e.paired.opened front' (sub front' h)
    have fewer := e.paired.opened front (sub front (List.prefix_refl front))
    omega
  constructor
  · intro depth
    refine forall_outside_cons.2 ⟨fun _ => opensMain_of_isPunctuation e.opens, ?_⟩
    rw [inside, forall_outside_append]
    refine ⟨fun t h => absurd h (hidden depth t), ?_⟩
    exact Quiet.nil.cons (opensMain_of_isPunctuation e.closes) _
  · intro depth
    rw [Enclosed.tokens, List.foldl_cons, inside, List.foldl_append, e.paired.level,
      List.foldl_cons, List.foldl_nil, after]

theorem Definition.skipped (d : Definition) : Skipped d.tokens := by
  have columns : Skipped d.columnTokens := by
    unfold columnTokens
    cases d.columns with
    | none => exact .nil
    | some c => exact c.1.skipped.append c.2.skipped
  have body := d.afterAs.skipped.append d.body.skipped
  have rest := columns.append (body.cons_filler (isFiller_of_as d.isAs))
  exact (d.afterName.skipped.append rest).cons_filler d.isName

theorem Comma.skipped (c : Comma) : Skipped c.tokens :=
  c.before.skipped.append (c.after.skipped.cons_filler (isFiller_of_comma c.isComma))

theorem Expressions.skipped_listTokens (e : Expressions) : Skipped e.listTokens := by
  have others (xs : List (Comma × Definition)) :
      Skipped (xs.flatMap fun x => x.1.tokens ++ x.2.tokens) := by
    induction xs with
    | nil => exact .nil
    | cons x xs ih => exact (x.1.skipped.append x.2.skipped).append ih
  exact e.afterWith.skipped.append
    (e.first.skipped.append ((others e.others).append e.rest.skipped))

theorem Trail.quiet {ts : List Token} (trail : Trail ts) : Quiet ts := by
  induction trail with
  | nil => exact .nil
  | token quiet _ ih => exact ih.cons quiet
  | definition d _ ih => exact d.skipped.quiet.append ih

theorem Expressions.ofTokens_tokens (e : Expressions) (ts : List Token) :
    StatementKind.ofTokens (e.tokens ++ ts) =
      StatementKind.afterExpressions 0 (e.listTokens ++ ts) := by
  have known : StatementKind.with_ ≠ .unknown := StatementKind.noConfusion
  obtain ⟨word, with_⟩ := ofKeyword_of_isKeyword known e.isWith
  have lead : ∀ t ∈ e.lead, (t.isWhitespace || t.isPunctuation '(') = true := fun t ht =>
    Bool.or_eq_true_iff.2 (e.skipped t ht)
  have first : (e.with_.isWhitespace || e.with_.isPunctuation '(') = false := by
    simp [Token.isWhitespace, Token.isPunctuation, word]
  have begun : (e.tokens ++ ts).dropWhile (fun t => t.isWhitespace || t.isPunctuation '(') =
      e.with_ :: (e.listTokens ++ ts) := by
    rw [Expressions.tokens, List.append_assoc, List.cons_append]
    refine Text.dropWhile_run lead fun t ht => ?_
    obtain rfl := Option.some.inj ht
    exact first
  rw [StatementKind.ofTokens, begun]
  simp only [word, with_, if_true]

end Parts

/-- Behind common table expressions the kind is that of the statement which opens there, whatever
statements stand in the bodies. If none opens outside parentheses, there is only WITH to tell it. -/
theorem Expressions.ofTokens_behind (e : Expressions) :
    (∀ kind ∈ mainKinds, ∀ main : Token, main.isKeyword kind.keyword = true → ∀ rest,
        StatementKind.ofTokens (e.tokens ++ main :: rest) = kind) ∧
      (∀ trail, Trail trail → StatementKind.ofTokens (e.tokens ++ trail) = .with_) ∧
      ∀ query ts, tokenize query = .ok ts →
        StatementKind.ofQuery query = StatementKind.ofTokens ts := by
  refine ⟨?_, ?_, ?_⟩
  · intro kind known main opens rest
    rw [e.ofTokens_tokens, e.skipped_listTokens.afterExpressions, afterExpressions_main known opens]
  · intro trail h
    rw [e.ofTokens_tokens, e.skipped_listTokens.afterExpressions, h.quiet.afterExpressions]
  · intro query ts read
    rw [StatementKind.ofQuery, read]

def gap (position : Nat) : Filler :=
  ⟨[⟨.whitespace, " ", position⟩], List.forall_mem_singleton.2 rfl⟩

def archived : Expressions where
  lead := [⟨.punctuation, "(", 0⟩]
  skipped := by decide
  with_ := ⟨.keyword, "with", 1⟩
  isWith := by decide
  afterWith := ⟨[⟨.whitespace, " ", 2⟩, ⟨.identifier, "recursive", 3⟩, ⟨.whitespace, " ", 4⟩],
    by decide⟩
  first :=
    { name := ⟨.identifier, "a", 5⟩
      isName := by decide
      afterName := gap 6
      columns := some
        (⟨⟨.punctuation, "(", 7⟩, by decide, [⟨.identifier, "x", 8⟩], by decide,
          ⟨.punctuation, ")", 9⟩, by decide⟩, gap 10)
      as_ := ⟨.keyword, "as", 11⟩
      isAs := by decide
      afterAs := gap 12
      body := ⟨⟨.punctuation, "(", 13⟩, by decide,
        [⟨.punctuation, "(", 14⟩, ⟨.keyword, "select", 15⟩, ⟨.whitespace, " ", 16⟩,
          ⟨.literal, "1", 17⟩, ⟨.punctuation, ")", 18⟩],
        by decide, ⟨.punctuation, ")", 19⟩, by decide⟩ }
  others := [(⟨⟨[], by decide⟩, ⟨.punctuation, ",", 20⟩, by decide, gap 21⟩,
    { name := ⟨.identifier, "b", 22⟩
      isName := by decide
      afterName := gap 23
      columns := none
      as_ := ⟨.keyword, "AS", 24⟩
      isAs := by decide
      afterAs := gap 25
      body := ⟨⟨.punctuation, "(", 26⟩, by decide, [⟨.keyword, "delete", 27⟩], by decide,
        ⟨.punctuation, ")", 28⟩, by decide⟩ })]
  rest := gap 29

theorem ofTokens_behind_archived :
    (tokenize "(with recursive a (x) as ((select 1)), b AS (delete) Update t").toOption =
        some (archived.tokens ++ ⟨.keyword, "Update", 30⟩ ::
          [⟨.whitespace, " ", 31⟩, ⟨.identifier, "t", 32⟩]) ∧
      StatementKind.ofTokens (archived.tokens ++ ⟨.keyword, "Update", 30⟩ ::
        [⟨.whitespace, " ", 31⟩, ⟨.identifier, "t", 32⟩]) = .update ∧
      Trail [⟨.punctuation, ")", 30⟩, ⟨.punctuation, ")", 31⟩] ∧
      StatementKind.ofTokens (archived.tokens ++
        [⟨.punctuation, ")", 30⟩, ⟨.punctuation, ")", 31⟩]) = .with_ := by
  obtain ⟨main, trail, -⟩ := archived.ofTokens_behind
  have closed : Trail [⟨.punctuation, ")", 30⟩, ⟨.punctuation, ")", 31⟩] :=
    .token (by decide) (.token (by decide) .nil)
  exact ⟨by decide +kernel, main .update (by decide) _ (by decide) _, closed, trail _ closed⟩

end SqlReview.Query.CommonTables
