import SqlReview.Proofs.Query.TopLevel
import SqlReview.Proofs.Sql.Lookahead.Quoted

/-!
Names in quotes, which may hold any characters. They are one token each, which is no keyword whatever
it holds, but a list is cut at the commas and blanks in quotes as it is at all others: the name is
what the list refers to if there are none in it.
-/
namespace SqlReview.Sql

structure QuotedName where
  quote : Char
  quotes : quote = '"' ∨ quote = '\x60'
  name : Text

theorem Reads.after_break {part more rest : Text} {ls ms : List Lexeme} (later : Reads more ms rest)
    (b : Break) (item : ∀ {rest}, Closes rest → Reads part ls rest) :
    Reads (part ++ (b.text ++ more)) (ls ++ (b.lexemes ++ ms)) rest := by
  apply Reads.append _ ((b.reads _).append later)
  rw [List.append_assoc]
  exact item (b.closes _)

namespace QuotedName

def doubled (quote : Char) (name : Text) : Text :=
  name.flatMap fun c => if c = quote then [quote, quote] else [c]

def written (q : QuotedName) : Text := q.quote :: (doubled q.quote q.name ++ [q.quote])

def lexeme (q : QuotedName) : Lexeme := .quotedWord q.quote q.name

def text (q : QuotedName) : Text := q.lexeme.spelling

def IsSolid (q : QuotedName) : Prop := ∀ c ∈ q.name, Text.isBlank c = false ∧ c ≠ ','

instance (q : QuotedName) : Decidable q.IsSolid :=
  List.decidableBAll _ q.name

section Reading

variable {quote : Char} {rest : Text}

/-- Doubled quotes are read back as single ones, up to the one that is not doubled. -/
theorem quotedBody_doubled (other : rest.head? ≠ some quote) (name : Text) :
    quotedBody quote false (doubled quote name ++ quote :: rest) = some (name, rest) := by
  induction name with
  | nil => exact quotedBody_quote other
  | cons c name ih =>
    rw [doubled, List.flatMap_cons, ← doubled]
    by_cases same : c = quote
    · subst same
      simp [quotedBody, ih, consBody]
    · obtain ⟨d, s, e⟩ : ∃ d s, doubled quote name ++ quote :: rest = d :: s :=
        List.exists_cons_of_ne_nil (by simp)
      rw [e] at ih
      rw [if_neg same, List.singleton_append, List.cons_append, e]
      simp [quotedBody, same, ih, consBody]

variable (q : QuotedName)

theorem reads (other : rest.head? ≠ some q.quote) : Reads q.written [q.lexeme] rest := by
  have scanned : scan q.quote (doubled q.quote q.name ++ [q.quote] ++ rest) =
      scanQuotedWord q.quote (doubled q.quote q.name ++ [q.quote] ++ rest) := by
    obtain ⟨quote, quotes, name⟩ := q
    rcases quotes with rfl | rfl
    · rfl
    · rfl
  apply Reads.of_scan
  rw [scanned, scanQuotedWord, List.append_assoc, List.singleton_append, quotedBody_doubled other]
  rfl

theorem reads_closed (closes : Closes rest) : Reads q.written [q.lexeme] rest := by
  apply q.reads
  apply closes.head?_ne
  rcases q.quotes with e | e
  · rw [e]
    decide
  · rw [e]
    decide

end Reading

variable (q : QuotedName)

theorem text_eq : q.text = q.quote :: (q.name ++ [q.quote]) := rfl

theorem solid_quote : Text.isBlank q.quote = false ∧ q.quote ≠ ',' := by
  rcases q.quotes with e | e
  · rw [e]
    decide
  · rw [e]
    decide

/-- A token of this kind is no keyword, whatever word is in the quotes. -/
theorem isKeyword_token (w : Text) : q.lexeme.token.isKeyword w = false := rfl

theorem isSolid_of_isReserved (h : isReserved q.name = true) : q.IsSolid := by
  obtain ⟨w, known, spelled⟩ := List.any_eq_true.1 h
  rw [Text.eqIgnoreCase_comm] at spelled
  intro c hc
  have plain := Keyword.plain known ⟨q.name, spelled⟩ c hc
  refine ⟨Text.not_isBlank_of_isPlain plain, ?_⟩
  rintro rfl
  revert plain
  decide

end QuotedName

end SqlReview.Sql

namespace SqlReview.Query

open Sql

section Names

variable (n : QuotedName)

theorem two_le_length_references (h : ',' ∈ n.name) : 2 ≤ (references n.text).length := by
  obtain ⟨solid, other⟩ := n.solid_quote
  obtain ⟨front, back, e⟩ := List.append_of_mem h
  have parted : n.text = (n.quote :: front) ++ ',' :: (back ++ [n.quote]) := by
    rw [n.text_eq, e]
    simp
  have first : references (n.quote :: front) ≠ [] :=
    TopLevel.references_ne_nil (List.mem_cons_self ..) solid other
  have last : references (back ++ [n.quote]) ≠ [] :=
    TopLevel.references_ne_nil (List.mem_append_right _ (List.mem_singleton_self _)) solid other
  have := List.length_pos_iff.2 first
  have := List.length_pos_iff.2 last
  rw [parted, references_append_comma, List.length_append]
  omega

theorem references_quoted (h : ',' ∉ n.name) :
    (references n.text).map some = [(Text.words n.text).getLast?] := by
  have none : ',' ∉ n.text := by
    have other := n.solid_quote.2.symm
    rw [n.text_eq]
    simp [h, other]
  have filled : Text.words n.text ≠ [] :=
    Text.words_ne_nil (List.mem_cons_self ..) n.solid_quote.1
  rw [references_of_no_comma none, List.getLast?_eq_some_getLast filled]
  rfl

theorem references_quoted_eq_iff : references n.text = [n.text] ↔ n.IsSolid := by
  constructor
  · intro whole c hc
    by_cases comma : ',' ∈ n.name
    · have two := two_le_length_references n comma
      rw [whole] at two
      simp at two
    · have last := references_quoted n comma
      rw [whole, List.map_singleton, List.singleton_inj] at last
      have word : n.text ∈ Text.words n.text := List.mem_of_getLast? last.symm
      refine ⟨Text.solid_of_mem_words word c ?_, fun e => comma (e ▸ hc)⟩
      exact List.mem_cons_of_mem _ (List.mem_append_left _ hc)
  · intro solid
    have quote := n.solid_quote.1
    have word : Text.words n.text = [n.text] := by
      apply Text.words_of_solid (List.cons_ne_nil _ _)
      intro c hc
      replace hc : c ∈ n.quote :: (n.name ++ [n.quote]) := hc
      rw [List.mem_cons, List.mem_append, List.mem_singleton] at hc
      rcases hc with rfl | hc | rfl
      · exact quote
      · exact (solid c hc).1
      · exact quote
    have last := references_quoted n fun comma => (solid ',' comma).2 rfl
    rw [word] at last
    exact (List.map_inj_right fun _ _ => Option.some.inj).1 last

end Names

/-- A query for a column of a table, both with their names in quotes. -/
structure QuotedSelect where
  select : Keyword "SELECT"
  gap : Gap
  column : QuotedName
  before : Gap
  from_ : Keyword "FROM"
  after : Gap
  table : QuotedName

namespace QuotedSelect

variable (q : QuotedSelect)

def render : Text :=
  q.select.text ++ (q.gap.text ++ (q.column.written ++ (q.before.text ++
    (q.from_.text ++ (q.after.text ++ q.table.written)))))

def columnPart : List Lexeme :=
  (Break.gap q.gap).lexemes ++ ([q.column.lexeme] ++ (Break.gap q.before).lexemes)

def tablePart : List Lexeme := (Break.gap q.after).lexemes ++ [q.table.lexeme]

theorem lexemes_render : lexemes q.render =
    .ok (.word q.select.text :: (q.columnPart ++ .word q.from_.text :: q.tablePart)) := by
  have table : Reads q.table.written [q.table.lexeme] [] :=
    q.table.reads_closed fun _ h => nomatch h
  have all := (((table.after_break (.gap q.after)
    fun closes => (Solid.keyword (by decide) q.from_).reads closes).after_break (.gap q.before)
    q.column.reads_closed).after_break (.gap q.gap)
    fun closes => (Solid.keyword (by decide) q.select).reads closes)
  unfold Reads at all
  rw [List.append_nil] at all
  refine all.trans ?_
  rw [lexemes, columnPart, tablePart]
  simp [Except.map]

theorem adds_quoted (clause : Clause) (n : QuotedName) : Adds clause false [n.lexeme] n.text false :=
  (passes_of_other (fun _ _ => rfl) (fun _ _ => rfl)).adds

theorem ofQuery_render :
    References.ofQuery q.render = ⟨references q.table.text, references q.column.text⟩ := by
  have select : (Lexeme.word q.select.text).token.isKeyword "SELECT" = true :=
    isKeyword_same (by decide) q.select
  have from_ : (Lexeme.word q.from_.text).token.isKeyword "FROM" = true :=
    isKeyword_same (by decide) q.from_
  have noSelect : (Lexeme.word q.from_.text).token.isKeyword "SELECT" = false :=
    isKeyword_other (by decide) q.from_ (by decide) (by decide)
  have columns : Adds .select false q.columnPart _ false :=
    (Adds.break_ (.gap q.gap)).append ((adds_quoted .select q.column).append
      (Adds.break_ (.gap q.before)))
  have tables : Adds .from_ false q.tablePart _ false :=
    (Adds.break_ (.gap q.after)).append (adds_quoted .from_ q.table)
  obtain ⟨between, column⟩ := columns true ((Lexeme.word q.from_.text).token ::
    q.tablePart.map Lexeme.token)
  obtain ⟨later, table⟩ := tables true []
  rw [collectGroup_end .select between false
    (endsGroup_keyword (by decide) q.from_ (by decide)), List.append_nil] at column
  rw [List.append_nil, collectGroup, List.append_nil] at table
  have columnRefs : references ((Break.gap q.gap).text ++ (q.column.text ++
      (Break.gap q.before).text)) = references q.column.text :=
    (TopLevel.references_blank_append q.gap.isBlank).trans
      (references_append_blank q.before.isBlank _)
  have tableRefs : references ((Break.gap q.after).text ++ q.table.text) =
      references q.table.text := TopLevel.references_blank_append q.after.isBlank
  have tail : References.ofTokensFrom 0 ((Lexeme.word q.from_.text).token ::
      q.tablePart.map Lexeme.token) =
      ⟨references q.table.text, []⟩ := by
    rw [References.ofTokensFrom, isPunctuation_word, isPunctuation_word, noSelect, from_]
    simp only [GroupState.start, table, References.ofTokensFrom, List.append_nil, tableRefs]
    rfl
  rw [ofQuery_of_lexemes q.lexemes_render, List.map_cons, List.map_append, List.map_cons,
    References.ofTokensFrom, isPunctuation_word, isPunctuation_word, select]
  simp only [GroupState.start, column, tail, columnRefs, List.append_nil]
  rfl

/-- A query refers to its column and its table by what their names are cut to, so they stay whole
iff neither has a blank or a comma between its quotes. A name without a comma is cut to its last
word, one with a comma to more than one reference. No word in quotes is read as a keyword, and one
that would be a keyword is referred to as it stands. -/
theorem ofQuery_quoted :
    References.ofQuery q.render = ⟨references q.table.text, references q.column.text⟩ ∧
      (References.ofQuery q.render = ⟨[q.table.text], [q.column.text]⟩ ↔
        q.table.IsSolid ∧ q.column.IsSolid) ∧
      ∀ n ∈ [q.column, q.table],
        (references n.text = [n.text] ↔ n.IsSolid) ∧
        (',' ∉ n.name → (references n.text).map some = [(Text.words n.text).getLast?]) ∧
        (',' ∈ n.name → 2 ≤ (references n.text).length) ∧
        (isReserved n.name = true → references n.text = [n.text]) ∧
        ∀ w, n.lexeme.token.isKeyword w = false := by
  refine ⟨q.ofQuery_render, ?_, fun n _ => ⟨references_quoted_eq_iff n, references_quoted n,
    two_le_length_references n, ?_, n.isKeyword_token⟩⟩
  · rw [q.ofQuery_render, References.mk.injEq, references_quoted_eq_iff, references_quoted_eq_iff]
  · intro reserved
    exact (references_quoted_eq_iff n).2 (n.isSolid_of_isReserved reserved)

end QuotedSelect

def quotedWords : QuotedSelect where
  select := ⟨"SELECT", by decide⟩
  gap := ⟨.space, []⟩
  column := ⟨'"', .inl rfl, "FROM"⟩
  before := ⟨.space, []⟩
  from_ := ⟨"FROM", by decide⟩
  after := ⟨.space, []⟩
  table := ⟨'\x60', .inr rfl, "o\x60r"⟩

theorem QuotedSelect.ofQuery_quotedWords :
    quotedWords.render = "SELECT \"FROM\" FROM \x60o\x60\x60r\x60".toList ∧
      References.ofQuery quotedWords.render =
        ⟨["\x60o\x60r\x60".toList], ["\"FROM\"".toList]⟩ ∧
      isReserved quotedWords.column.name = true ∧
      quotedWords.column.lexeme.token.isKeyword "FROM" = false := by
  obtain ⟨_, whole, names⟩ := quotedWords.ofQuery_quoted
  have reserved : isReserved quotedWords.column.name = true := by decide +kernel
  obtain ⟨_, _, _, _, noKeyword⟩ := names quotedWords.column (List.mem_cons_self ..)
  refine ⟨by decide, ?_, reserved, noKeyword _⟩
  exact whole.2 ⟨by decide, quotedWords.column.isSolid_of_isReserved reserved⟩

/-- The blanks and commas in a name's quotes cut the name. -/
theorem quoted_name_cut :
    References.ofQuery "SELECT \"a b\" FROM \"c, d\"" =
        ⟨["\"c".toList, "d\"".toList], ["b\"".toList]⟩ ∧
      ¬ ∀ q : QuotedSelect, References.ofQuery q.render = ⟨[q.table.text], [q.column.text]⟩ := by
  refine ⟨by decide +kernel, ?_⟩
  intro whole
  have found := whole
    { quotedWords with
      column := ⟨'"', .inl rfl, "a b"⟩
      table := ⟨'"', .inl rfl, "c, d"⟩ }
  revert found
  decide +kernel

end SqlReview.Query
