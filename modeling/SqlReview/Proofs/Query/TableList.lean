import SqlReview.Proofs.Query.Reading
import SqlReview.Proofs.Text.LetterCase

/-!
The tables that a FROM outside parentheses brings in. Names stand between commas and joins, and a
predicate with any subqueries in its parentheses may follow a name; every name is one table, and
nothing of a predicate is.
-/
namespace SqlReview.Query

open Sql
open TopLevel (Outside Gives Predicate)

section Grammar

def isNamePart (t : Token) : Bool :=
  t.kind == .identifier && t.text.all (fun c => !Text.isBlank c && c != ',') ||
    (t.isPunctuation '.' || t.isKeyword "AS")

def isGap (t : Token) : Bool := t.isWhitespace && t.text.all Text.isBlank

/-- The name of a table as a list has it, with its alias and the blanks around. -/
structure NamedTable where
  tokens : List Token
  plain : ∀ t ∈ tokens, isNamePart t = true ∨ isGap t = true
  filled : ∃ t ∈ tokens, isNamePart t = true ∧ t.text ≠ []

def NamedTable.text (n : NamedTable) : Text := n.tokens.flatMap Token.text

structure Source where
  table : NamedTable
  predicate : Option (Predicate .from_)

def Source.tokens (s : Source) : List Token :=
  s.table.tokens ++ match s.predicate with
    | some p => p.word :: p.condition.tokens
    | none => []

/-- What stands between two tables: a comma, or the words of a join with blanks between them. -/
inductive Joint where
  | comma (mark : Token) (parts : mark.isPunctuation ',' = true)
  | join (word : Token) (joins : word.isAnyKeyword joinWords = true) (others : List Token)
      (more : ∀ t ∈ others, t.isAnyKeyword joinWords = true ∨ isGap t = true)

def Joint.tokens : Joint → List Token
  | .comma mark _ => [mark]
  | .join word _ others _ => word :: others

/-- A query cut at a FROM outside parentheses and at the end of its list of tables. -/
structure FromClause where
  lead : List Token
  outside : lead.foldl nest 0 = 0
  word : Token
  isFrom : word.isKeyword "FROM" = true
  first : Source
  others : List (Joint × Source)
  rest : List Token
  restEnds : ∀ t ∈ rest.head?, endsGroup t = true

namespace FromClause

def laterTokens (others : List (Joint × Source)) : List Token :=
  others.flatMap fun x => x.1.tokens ++ x.2.tokens

def tokens (c : FromClause) : List Token :=
  c.lead ++ c.word :: (c.first.tokens ++ laterTokens c.others ++ c.rest)

def tables (c : FromClause) : List NamedTable := c.first.table :: c.others.map fun x => x.2.table

end FromClause

end Grammar

section Names

variable {t : Token}

theorem solid_of_isNamePart (h : isNamePart t = true) :
    ∀ c ∈ t.text, Text.isBlank c = false ∧ c ≠ ',' := by
  simp only [isNamePart, Bool.or_eq_true, Bool.and_eq_true, List.all_eq_true] at h
  rcases h with ⟨_, solid⟩ | point | as_
  · intro c hc
    simpa using solid c hc
  · obtain ⟨_, text⟩ := (TopLevel.isPunctuation_iff t '.').1 point
    rw [text]
    exact List.forall_mem_singleton.2 (by decide)
  · simp only [Token.isKeyword, Bool.and_eq_true, beq_iff_eq] at as_
    intro c hc
    have capital := (capitals_of_reserved "AS" (by decide)).2
    have letter := isAsciiLetter_of_eqIgnoreCase capital as_.2 c hc
    refine ⟨Text.not_isBlank_of_isPlain (Text.isPlain_of_isAsciiLetter letter), ?_⟩
    rintro rfl
    exact absurd letter (by decide)

theorem passes_of_plain (h : isNamePart t = true ∨ isGap t = true) : Passes .from_ t := by
  have other (kind : t.kind ≠ .punctuation) (kind' : t.kind ≠ .keyword) : Passes .from_ t :=
    passes_of_other (fun w _ => isKeyword_of_kind kind' w) fun c _ => by
      simp [Token.isPunctuation, kind]
  simp only [isNamePart, isGap, Token.isWhitespace, Bool.or_eq_true, Bool.and_eq_true, beq_iff_eq]
    at h
  rcases h with (⟨kind, _⟩ | point | as_) | ⟨kind, _⟩
  · exact other (kind ▸ TokenKind.noConfusion) (kind ▸ TokenKind.noConfusion)
  · obtain ⟨kind, text⟩ := (TopLevel.isPunctuation_iff t '.').1 point
    refine passes_of_other (fun w _ => isKeyword_of_kind (kind ▸ TokenKind.noConfusion) w) ?_
    intro c hc
    have apart : '.' ∉ groupMarks := by decide
    have other : '.' ≠ c := (ne_of_mem_of_not_mem hc apart).symm
    simp [Token.isPunctuation, text, other]
  · refine passes_of_other ?_ fun c _ => TopLevel.isPunctuation_of_keyword as_ c
    have known : t.isAnyKeyword (["AS"] : List Text) = true := by
      simpa [Token.isAnyKeyword] using as_
    have none : t.isAnyKeyword groupWords = false := TopLevel.isAnyKeyword_apart (by decide) known
    intro w hw
    simpa using List.any_eq_false.1 none w hw
  · exact other (kind ▸ TokenKind.noConfusion) (kind ▸ TokenKind.noConfusion)

theorem mem_of_outside {depth : Nat} {ts : List Token} (h : Outside depth ts t) : t ∈ ts := by
  obtain ⟨front, back, rfl, _⟩ := h
  exact List.mem_append_right _ (List.mem_cons_self ..)

theorem foldl_nest_of_passes {clause : Clause} {ts : List Token} (h : ∀ t ∈ ts, Passes clause t)
    (depth : Nat) : ts.foldl nest depth = depth := by
  induction ts with
  | nil => rfl
  | cons t ts ih =>
    obtain ⟨first, h⟩ := List.forall_mem_cons.1 h
    rw [List.foldl_cons, first.nest_eq, ih h]

namespace NamedTable

variable (n : NamedTable)

theorem passes : ∀ t ∈ n.tokens, Passes .from_ t := fun t ht => passes_of_plain (n.plain t ht)

def item : TopLevel.Item .from_ where
  tokens := n.tokens
  closed := foldl_nest_of_passes n.passes 0
  goesOn t ht := (n.passes t (mem_of_outside ht)).goesOn
  single t ht := ((n.passes t (mem_of_outside ht)).listed rfl).2
  bare t ht := ((n.passes t (mem_of_outside ht)).listed rfl).1

theorem no_comma : ',' ∉ n.text := by
  intro comma
  obtain ⟨t, ht, hc⟩ := List.mem_flatMap.1 comma
  rcases n.plain t ht with part | gap
  · exact (solid_of_isNamePart part ',' hc).2 rfl
  · simp only [isGap, Bool.and_eq_true, List.all_eq_true] at gap
    exact absurd (gap.2 ',' hc) (by decide)

theorem words_text_ne_nil : Text.words n.text ≠ [] := by
  obtain ⟨t, ht, part, some_⟩ := n.filled
  obtain ⟨c, cs, e⟩ := List.exists_cons_of_ne_nil some_
  have hc : c ∈ t.text := by
    rw [e]
    exact List.mem_cons_self ..
  exact Text.words_ne_nil (List.mem_flatMap.2 ⟨t, ht, hc⟩) (solid_of_isNamePart part c hc).1

def reference : Text := (Text.words n.text).getLast n.words_text_ne_nil

theorem getLast?_words : (Text.words n.text).getLast? = some n.reference :=
  List.getLast?_eq_some_getLast _

theorem references_text : references n.text = [n.reference] := by
  rw [references_of_no_comma n.no_comma, n.getLast?_words]
  rfl

end NamedTable

end Names

section Group

open TopLevel (step_comma step_joinWord step_within)

def IsPadding (s : Text) : Prop := ∀ c ∈ s, c = ',' ∨ Text.isBlank c = true

theorem references_padding_append {padding s : Text} (h : IsPadding padding) :
    references (padding ++ s) = references s := by
  induction padding with
  | nil => rfl
  | cons c padding ih =>
    obtain ⟨first, h⟩ := List.forall_mem_cons.1 h
    rw [← ih h, List.cons_append]
    rcases first with rfl | blank
    · exact references_append_comma [] _
    · have blanks : ∀ d ∈ [c], Text.isBlank d = true := List.forall_mem_singleton.2 blank
      exact TopLevel.references_blank_append blanks

theorem gives_joinWords {others : List Token}
    (h : ∀ t ∈ others, t.isAnyKeyword joinWords = true ∨ isGap t = true) :
    ∃ padding, IsPadding padding ∧ Gives .from_ 0 false others padding false := by
  induction others with
  | nil => exact ⟨[], List.forall_mem_nil _, Gives.nil⟩
  | cons t others ih =>
    obtain ⟨first, h⟩ := List.forall_mem_cons.1 h
    obtain ⟨padding, pads, gives⟩ := ih h
    rcases first with joins | gap
    · exact ⟨[','] ++ padding, List.forall_mem_cons.2 ⟨.inl rfl, pads⟩,
        Gives.cons (step_joinWord joins) gives⟩
    · have passes : Passes .from_ t := passes_of_plain (.inr gap)
      have step : GroupState.step .from_ ⟨0, false, false⟩ t =
          some (t.text, ⟨nest 0 t, false, false⟩) :=
        step_within fun _ => ⟨passes.goesOn, (passes.listed rfl).2, fun _ => (passes.listed rfl).1⟩
      rw [passes.nest_eq] at step
      simp only [isGap, Bool.and_eq_true, List.all_eq_true] at gap
      refine ⟨t.text ++ padding, ?_, Gives.cons step gives⟩
      intro c hc
      rcases List.mem_append.1 hc with hc | hc
      · exact .inr (gap.2 c hc)
      · exact pads c hc

/-- What parts two tables ends the predicate of the first. -/
theorem Joint.gives (j : Joint) (inside : Bool) :
    ∃ padding, IsPadding padding ∧ Gives .from_ 0 inside j.tokens (',' :: padding) false := by
  cases j with
  | comma mark comma =>
    have columns : Clause.from_ = .select → inside = false := nofun
    exact ⟨[], List.forall_mem_nil _, Gives.cons (step_comma comma columns) Gives.nil⟩
  | join word joins others more =>
    obtain ⟨padding, pads, gives⟩ := gives_joinWords more
    exact ⟨padding, pads, Gives.cons (step_joinWord joins) gives⟩

theorem Source.gives (s : Source) :
    Gives .from_ 0 false s.tokens s.table.text s.predicate.isSome := by
  obtain ⟨table, predicate⟩ := s
  cases predicate with
  | none => exact Gives.entry ⟨table.item, none⟩
  | some p => exact Gives.entry ⟨table.item, some p⟩

namespace FromClause

/-- By induction on the tables: a predicate may be open before each of them. -/
theorem gives_laterTokens (others : List (Joint × Source)) (inside : Bool) :
    ∃ text inside', Gives .from_ 0 inside (laterTokens others) text inside' ∧
      ∀ s, references (s ++ text) = references s ++ others.map fun x => x.2.table.reference := by
  induction others generalizing inside with
  | nil => exact ⟨[], inside, Gives.nil, fun s => by simp⟩
  | cons x others ih =>
    obtain ⟨padding, pads, parted⟩ := x.1.gives inside
    obtain ⟨text, inside', gives, refs⟩ := ih x.2.predicate.isSome
    refine ⟨',' :: padding ++ x.2.table.text ++ text, inside',
      (parted.append x.2.gives).append gives, ?_⟩
    intro s
    calc references (s ++ (',' :: padding ++ x.2.table.text ++ text))
      _ = references s ++ references (padding ++ (x.2.table.text ++ text)) := by
        rw [List.append_assoc, List.cons_append, references_append_comma]
      _ = references s ++ (references x.2.table.text ++
            others.map fun y => y.2.table.reference) := by
        rw [references_padding_append pads, refs]
      _ = references s ++ (x :: others).map fun y => y.2.table.reference := by
        rw [x.2.table.references_text, List.map_cons, List.singleton_append]

variable (c : FromClause)

theorem collectGroup_tables : ∃ text,
    collectGroup .from_ .start (c.first.tokens ++ laterTokens c.others ++ c.rest) =
      (text, c.rest) ∧ references text = c.tables.map NamedTable.reference := by
  obtain ⟨text, inside', gives, refs⟩ := gives_laterTokens c.others c.first.predicate.isSome
  refine ⟨c.first.table.text ++ text, ?_, ?_⟩
  · rw [GroupState.start, TopLevel.collectGroup_tables_leading, c.first.gives.append gives,
      TopLevel.collectGroup_ends c.restEnds, List.append_nil]
  · rw [refs, c.first.table.references_text, tables, List.map_cons, List.map_map]
    rfl

theorem ofTokens_word :
    References.ofTokens (c.word :: (c.first.tokens ++ laterTokens c.others ++ c.rest)) =
      References.append ⟨c.tables.map NamedTable.reference, []⟩ (.ofTokens c.rest) := by
  obtain ⟨text, group, refs⟩ := c.collectGroup_tables
  have inside : Place.afterOutside 0 c.word = .inside .from_ .start [] := by
    rw [Place.afterOutside, TopLevel.isPunctuation_of_keyword c.isFrom,
      TopLevel.isPunctuation_of_keyword c.isFrom, TopLevel.isKeyword_select_of_from c.isFrom,
      c.isFrom]
    rfl
  rw [References.ofTokens, Place.rest_afterOutside, inside, Place.rest, group, List.nil_append,
    References.ofList, refs]
  rfl

/-- A FROM brings in one table for each name of its list, which is the last word of it, and nothing
of any predicate. What stands before it and after its list is read as if it stood alone. -/
theorem ofTokens_tables :
    References.ofTokens c.tokens =
        ⟨(References.ofTokens c.lead).tables ++
            (c.tables.map NamedTable.reference ++ (References.ofTokens c.rest).tables),
          (References.ofTokens c.lead).columns ++ (References.ofTokens c.rest).columns⟩ ∧
      (c.tables.map NamedTable.reference).length = c.others.length + 1 ∧
      ∀ n ∈ c.tables, (Text.words n.text).getLast? = some n.reference := by
  have ends : ∀ t ∈ (c.word :: (c.first.tokens ++ laterTokens c.others ++ c.rest)).head?,
      endsGroup t = true := by
    intro t ht
    obtain rfl : c.word = t := Option.some.inj ht
    exact TopLevel.endsGroup_of_from c.isFrom
  refine ⟨?_, by simp [tables], fun n _ => n.getLast?_words⟩
  rw [tokens, ofTokens_append c.outside ends, c.ofTokens_word]
  rfl

end FromClause

def joinedFrom : FromClause where
  lead := [⟨.keyword, "SELECT", 0⟩, ⟨.whitespace, " ", 1⟩, ⟨.identifier, "x", 2⟩,
           ⟨.whitespace, " ", 3⟩]
  outside := rfl
  word := ⟨.keyword, "FROM", 4⟩
  isFrom := by decide
  first :=
    { table :=
        { tokens :=
            [⟨.whitespace, " ", 5⟩, ⟨.identifier, "a", 6⟩, ⟨.whitespace, " ", 7⟩,
             ⟨.keyword, "AS", 8⟩, ⟨.whitespace, " ", 9⟩, ⟨.identifier, "u", 10⟩,
             ⟨.whitespace, " ", 11⟩]
          plain := by decide
          filled := by decide }
      predicate := none }
  others :=
    [(.join ⟨.keyword, "LEFT", 12⟩ (by decide)
          [⟨.whitespace, " ", 13⟩, ⟨.keyword, "JOIN", 14⟩] (by decide),
        { table :=
            { tokens :=
                [⟨.whitespace, " ", 15⟩, ⟨.identifier, "s", 16⟩, ⟨.punctuation, ".", 17⟩,
                 ⟨.identifier, "b", 18⟩, ⟨.whitespace, " ", 19⟩]
              plain := by decide
              filled := by decide }
          predicate := some
            { word := ⟨.keyword, "ON", 20⟩
              opens := by decide
              condition :=
                { tokens :=
                    [⟨.whitespace, " ", 21⟩, ⟨.identifier, "y", 22⟩, ⟨.whitespace, " ", 23⟩,
                     ⟨.keyword, "IN", 24⟩, ⟨.whitespace, " ", 25⟩, ⟨.punctuation, "(", 26⟩,
                     ⟨.keyword, "SELECT", 27⟩, ⟨.whitespace, " ", 28⟩, ⟨.identifier, "c", 29⟩,
                     ⟨.punctuation, ",", 30⟩, ⟨.whitespace, " ", 31⟩, ⟨.identifier, "d", 32⟩,
                     ⟨.whitespace, " ", 33⟩, ⟨.keyword, "FROM", 34⟩, ⟨.whitespace, " ", 35⟩,
                     ⟨.identifier, "e", 36⟩, ⟨.punctuation, ")", 37⟩]
                  closed := by decide
                  goesOn := by decide
                  single := by decide } } }),
      (.comma ⟨.punctuation, ",", 38⟩ (by decide),
        { table :=
            { tokens := [⟨.whitespace, " ", 39⟩, ⟨.identifier, "f", 40⟩]
              plain := by decide
              filled := by decide }
          predicate := none })]
  rest := [⟨.punctuation, ";", 41⟩]
  restEnds := by decide

theorem FromClause.ofTokens_joinedFrom :
    (tokenize "SELECT x FROM a AS u LEFT JOIN s.b ON y IN (SELECT c, d FROM e), f;").toOption =
        some joinedFrom.tokens ∧
      References.ofTokens joinedFrom.tokens =
        ⟨["u".toList, "s.b".toList, "f".toList], ["x".toList]⟩ ∧
      joinedFrom.others.length = 2 := by
  obtain ⟨found, _, _⟩ := joinedFrom.ofTokens_tables
  have names : joinedFrom.tables.map NamedTable.reference =
      ["u".toList, "s.b".toList, "f".toList] := by decide +kernel
  refine ⟨by decide +kernel, ?_, rfl⟩
  rw [found, names]
  decide +kernel

end Group

end SqlReview.Query
