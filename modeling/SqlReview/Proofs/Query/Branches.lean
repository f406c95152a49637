import Mathlib.Data.List.Induction
import Mathlib.Data.List.Infix
import SqlReview.Proofs.Query.TableList

/-!
Branches of a query, parted by UNION, EXCEPT, INTERSECT or a semicolon. A separator outside
parentheses ends whatever list is being read and adds nothing to it, so each branch is read as if it
stood alone.
-/
namespace SqlReview.Query.Branches

open Sql
open TopLevel (Outside restricts opensList)

/-- Each parenthesis that closes has one that opens before it, and no more are opened than closed. -/
structure Paired (ts : List Token) : Prop where
  opened : ∀ front, front <+: ts →
    front.countP (Token.isPunctuation ')') ≤ front.countP (Token.isPunctuation '(')
  closed : ts.countP (Token.isPunctuation '(') = ts.countP (Token.isPunctuation ')')

instance (ts : List Token) : Decidable (Paired ts) :=
  decidable_of_iff ((∀ front ∈ ts.inits, front.countP (Token.isPunctuation ')') ≤
      front.countP (Token.isPunctuation '(')) ∧
    ts.countP (Token.isPunctuation '(') = ts.countP (Token.isPunctuation ')'))
    ⟨fun h => ⟨fun front sub => h.1 front ((List.mem_inits front ts).2 sub), h.2⟩,
      fun h => ⟨fun front sub => h.opened front ((List.mem_inits front ts).1 sub), h.closed⟩⟩

def separatorWords : List Text := (["UNION", "EXCEPT", "INTERSECT"] : List String).map String.toList

/-- What parts two branches, with blanks around. The rows that are wanted, and comments, may follow
it before the next branch. -/
structure Separator where
  before : List Token
  gap : ∀ t ∈ before, isGap t = true
  mark : Token
  parts : mark.isAnyKeyword separatorWords = true ∨ mark.isPunctuation ';' = true
  after : List Token
  wanted : ∀ t ∈ after, t.isWhitespace = true ∨ restricts t = true

def Separator.tokens (s : Separator) : List Token := s.before ++ s.mark :: s.after

section Depth

variable {t : Token} {ts : List Token}

theorem nest_of_isWhitespace (h : t.isWhitespace = true) (depth : Nat) : nest depth t = depth := by
  have kind : t.kind = .whitespace := by simpa [Token.isWhitespace] using h
  simp [nest, Token.isPunctuation, kind]

theorem foldl_nest_of_flat (h : ∀ t ∈ ts, ∀ depth, nest depth t = depth) (depth : Nat) :
    ts.foldl nest depth = depth := by
  induction ts with
  | nil => rfl
  | cons t ts ih =>
    obtain ⟨first, h⟩ := List.forall_mem_cons.1 h
    rw [List.foldl_cons, first, ih h]

theorem nest_add_closed (depth : Nat) (t : Token)
    (h : [t].countP (Token.isPunctuation ')') ≤ depth + [t].countP (Token.isPunctuation '(')) :
    nest depth t + [t].countP (Token.isPunctuation ')') =
      depth + [t].countP (Token.isPunctuation '(') := by
  by_cases opens : t.isPunctuation '(' = true
  · obtain ⟨_, text⟩ := (TopLevel.isPunctuation_iff t '(').1 opens
    have open_ : t.isPunctuation ')' = false := by simp [Token.isPunctuation, text]
    simp [nest, opens, open_]
  · by_cases closes : t.isPunctuation ')' = true
    · simp_all [nest]
    · simp [nest, opens, closes]

/-- Where no parenthesis closes too early, the depth grows by the number of those still open. -/
theorem foldl_nest_add_closed (depth : Nat) (h : ∀ front, front <+: ts →
      front.countP (Token.isPunctuation ')') ≤ front.countP (Token.isPunctuation '(')) :
    ts.foldl nest depth + ts.countP (Token.isPunctuation ')') =
      depth + ts.countP (Token.isPunctuation '(') := by
  induction ts using List.reverseRecOn with
  | nil => rfl
  | append_singleton ts t ih =>
    have before := ih fun front sub => h front (sub.trans (List.prefix_append ts [t]))
    have whole := h _ (List.prefix_refl (ts ++ [t]))
    rw [List.countP_append, List.countP_append] at whole ⊢
    have last := nest_add_closed (ts.foldl nest depth) t (by omega)
    rw [List.foldl_append, List.foldl_cons, List.foldl_nil]
    omega

theorem Paired.level (h : Paired ts) (depth : Nat) : ts.foldl nest depth = depth := by
  have all := foldl_nest_add_closed depth h.opened
  rw [h.closed] at all
  omega

theorem Paired.foldl_nest (h : Paired ts) : ts.foldl nest 0 = 0 := h.level 0

end Depth

section Gaps

variable {t : Token} {ts : List Token}

theorem isWhitespace_of_gap (h : isGap t = true) : t.isWhitespace = true :=
  (Bool.and_eq_true_iff.1 h).1

theorem kind_of_gap (h : isGap t = true) : t.kind = .whitespace := by
  simpa [Token.isWhitespace] using isWhitespace_of_gap h

theorem isPunctuation_of_gap (h : isGap t = true) (c : Char) : t.isPunctuation c = false := by
  simp [Token.isPunctuation, kind_of_gap h]

theorem isKeyword_of_gap (h : isGap t = true) (w : Text) : t.isKeyword w = false :=
  isKeyword_of_kind (kind_of_gap h ▸ TokenKind.noConfusion) w

theorem foldl_nest_gap (h : ∀ t ∈ ts, isGap t = true) (depth : Nat) :
    ts.foldl nest depth = depth :=
  foldl_nest_of_flat (fun t ht => nest_of_isWhitespace (isWhitespace_of_gap (h t ht))) depth

theorem collectGroup_gap (clause : Clause) (state : GroupState) (h : ∀ t ∈ ts, isGap t = true) :
    ∃ blank, (∀ c ∈ blank, Text.isBlank c = true) ∧ collectGroup clause state ts = (blank, []) := by
  induction ts generalizing state with
  | nil => exact ⟨[], List.forall_mem_nil _, rfl⟩
  | cons t ts ih =>
    obtain ⟨first, h⟩ := List.forall_mem_cons.1 h
    have mark := isPunctuation_of_gap first
    have word := isKeyword_of_gap first
    have step : ∃ next, state.step clause t =
        some (if state.inPredicate then [] else t.text, next) := by
      cases clause with
      | select => simp [GroupState.step, endsGroup, Token.isAnyKeyword, mark, word]
      | from_ => simp [GroupState.step, endsGroup, Token.isAnyKeyword, mark, word]
    obtain ⟨next, step⟩ := step
    obtain ⟨blank, blanks, e⟩ := ih next h
    refine ⟨(if state.inPredicate then [] else t.text) ++ blank, ?_, ?_⟩
    · intro c hc
      rcases List.mem_append.1 hc with hc | hc
      · split at hc
        · cases hc
        · simp only [isGap, Bool.and_eq_true, List.all_eq_true] at first
          exact first.2 c hc
      · exact blanks c hc
    · rw [collectGroup, step]
      simp only [e]

theorem rest_gap (place : Place) (h : ∀ t ∈ ts, isGap t = true) : place.rest ts = place.rest [] := by
  have outside (depth : Nat) :
      References.ofTokensFrom depth ts = References.ofTokensFrom depth [] := by
    have plain : ∀ t, Outside depth ts t → opensList t = false := by
      intro t ht
      have word := isKeyword_of_gap (h t (mem_of_outside ht))
      rw [opensList, word, word]
      rfl
    rw [← List.append_nil ts, TopLevel.ofTokensFrom_plain plain, foldl_nest_gap h]
  cases place with
  | outside depth => exact outside depth
  | inside clause state text =>
    obtain ⟨blank, blanks, e⟩ := collectGroup_gap clause state h
    have same : References.ofList clause (text ++ blank) = References.ofList clause text := by
      cases clause with
      | select => rw [References.ofList, References.ofList, references_append_blank blanks]
      | from_ => rw [References.ofList, References.ofList, references_append_blank blanks]
    rw [Place.rest, Place.rest, e, collectGroup, List.append_nil, same]

theorem ofTokens_gap (front : List Token) (h : ∀ t ∈ ts, isGap t = true) :
    References.ofTokens (front ++ ts) = References.ofTokens front := by
  have same := ofTokens_congr (rest_gap (placeAfter front) h)
  rw [List.append_nil] at same
  exact same

end Gaps

section Separators

variable (s : Separator)

theorem Separator.endsGroup_mark : endsGroup s.mark = true := by
  rcases s.parts with word | semicolon
  · obtain ⟨w, known, is⟩ := List.any_eq_true.1 word
    have ender : separatorWords ⊆ clauseEnders := by decide
    have known : s.mark.isAnyKeyword clauseEnders = true := List.any_eq_true.2 ⟨w, ender known, is⟩
    rw [endsGroup, known, Bool.or_true, Bool.true_or]
  · rw [endsGroup, semicolon, Bool.true_or, Bool.true_or]

theorem Separator.plain : ∀ t ∈ s.mark :: s.after,
    opensList t = false ∧ ∀ depth, nest depth t = depth := by
  have keyword {ws : List Text} {t : Token} (h : t.isAnyKeyword ws = true)
      (apart : ∀ w ∈ ws, ∀ v ∈ ["SELECT".toList, "FROM".toList], Text.lower w ≠ Text.lower v) :
      opensList t = false ∧ ∀ depth, nest depth t = depth := by
    have none := TopLevel.isAnyKeyword_apart apart h
    obtain ⟨w, _, is⟩ := List.any_eq_true.1 h
    refine ⟨?_, fun depth => TopLevel.nest_of_isKeyword is⟩
    simpa [Token.isAnyKeyword, opensList] using none
  have other {t : Token} (kind : t.kind ≠ .keyword) (flat : ∀ depth, nest depth t = depth) :
      opensList t = false ∧ ∀ depth, nest depth t = depth := by
    refine ⟨?_, flat⟩
    rw [opensList, isKeyword_of_kind kind, isKeyword_of_kind kind]
    rfl
  rw [List.forall_mem_cons]
  constructor
  · rcases s.parts with word | semicolon
    · exact keyword word (by decide)
    · obtain ⟨kind, text⟩ := (TopLevel.isPunctuation_iff s.mark ';').1 semicolon
      exact other (kind ▸ TokenKind.noConfusion) fun depth => by
        simp [nest, Token.isPunctuation, text]
  · intro t ht
    rcases s.wanted t ht with space | rows
    · have kind : t.kind = .whitespace := by simpa [Token.isWhitespace] using space
      exact other (kind ▸ TokenKind.noConfusion) (nest_of_isWhitespace space)
    · have known : t.isAnyKeyword (["DISTINCT", "ALL"] : List Text) = true := by
        simpa [Token.isAnyKeyword, restricts] using rows
      exact keyword known (by decide)

theorem Separator.ofTokens_mark (second : List Token) :
    References.ofTokens (s.mark :: s.after ++ second) = References.ofTokens second := by
  have plain : ∀ t, Outside 0 (s.mark :: s.after) t → opensList t = false :=
    fun t ht => (s.plain t (mem_of_outside ht)).1
  have flat : (s.mark :: s.after).foldl nest 0 = 0 :=
    foldl_nest_of_flat (fun t ht => (s.plain t ht).2) 0
  rw [References.ofTokens, TopLevel.ofTokensFrom_plain plain, flat, References.ofTokens]

theorem Separator.ofTokens_parted {first : List Token} (closed : first.foldl nest 0 = 0)
    (second : List Token) : References.ofTokens (first ++ s.tokens ++ second) =
      (References.ofTokens first).append (References.ofTokens second) := by
  have closed : (first ++ s.before).foldl nest 0 = 0 := by
    rw [List.foldl_append, closed, foldl_nest_gap s.gap]
  have ends : ∀ t ∈ (s.mark :: s.after ++ second).head?, endsGroup t = true := by
    intro t ht
    obtain rfl : s.mark = t := Option.some.inj ht
    exact s.endsGroup_mark
  have parted : first ++ s.tokens ++ second =
      (first ++ s.before) ++ (s.mark :: s.after ++ second) := by
    simp [tokens]
  rw [parted, ofTokens_append closed ends, ofTokens_gap first s.gap, s.ofTokens_mark]

/-- A query with a separator refers to what its branches refer to, the first ones before the others,
in whatever list or predicate the first branch ends. -/
theorem ofTokens_separated {first : List Token} (paired : Paired first) (s : Separator)
    (second : List Token) :
    (References.ofTokens (first ++ s.tokens ++ second)).tables =
        (References.ofTokens first).tables ++ (References.ofTokens second).tables ∧
      (References.ofTokens (first ++ s.tokens ++ second)).columns =
        (References.ofTokens first).columns ++ (References.ofTokens second).columns := by
  rw [s.ofTokens_parted paired.foldl_nest]
  exact ⟨rfl, rfl⟩

def joinedBranch : List Token :=
  [⟨.keyword, "SELECT", 0⟩, ⟨.whitespace, " ", 1⟩, ⟨.identifier, "a", 2⟩, ⟨.whitespace, " ", 3⟩,
   ⟨.keyword, "FROM", 4⟩, ⟨.whitespace, " ", 5⟩, ⟨.identifier, "t", 6⟩, ⟨.whitespace, " ", 7⟩,
   ⟨.keyword, "JOIN", 8⟩, ⟨.whitespace, " ", 9⟩, ⟨.identifier, "u", 10⟩, ⟨.whitespace, " ", 11⟩,
   ⟨.keyword, "ON", 12⟩, ⟨.whitespace, " ", 13⟩, ⟨.identifier, "x", 14⟩, ⟨.whitespace, " ", 15⟩,
   ⟨.keyword, "IN", 16⟩, ⟨.whitespace, " ", 17⟩, ⟨.punctuation, "(", 18⟩,
   ⟨.keyword, "SELECT", 19⟩, ⟨.whitespace, " ", 20⟩, ⟨.identifier, "c", 21⟩,
   ⟨.whitespace, " ", 22⟩, ⟨.keyword, "FROM", 23⟩, ⟨.whitespace, " ", 24⟩,
   ⟨.identifier, "d", 25⟩, ⟨.punctuation, ")", 26⟩]

def unionAll : Separator where
  before := [⟨.whitespace, " ", 27⟩]
  gap := by decide
  mark := ⟨.keyword, "UNION", 28⟩
  parts := by decide
  after := [⟨.whitespace, " ", 29⟩, ⟨.keyword, "ALL", 30⟩, ⟨.whitespace, " ", 31⟩]
  wanted := by decide

def plainBranch : List Token :=
  [⟨.keyword, "SELECT", 32⟩, ⟨.whitespace, " ", 33⟩, ⟨.identifier, "b", 34⟩,
   ⟨.whitespace, " ", 35⟩, ⟨.keyword, "FROM", 36⟩, ⟨.whitespace, " ", 37⟩, ⟨.identifier, "v", 38⟩]

theorem ofTokens_separated_union :
    (tokenize "SELECT a FROM t JOIN u ON x IN (SELECT c FROM d) UNION ALL SELECT b FROM v").toOption =
        some (joinedBranch ++ unionAll.tokens ++ plainBranch) ∧
      Paired joinedBranch ∧
      (References.ofTokens (joinedBranch ++ unionAll.tokens ++ plainBranch)).tables =
        ["t".toList, "u".toList] ++ ["v".toList] ∧
      (References.ofTokens (joinedBranch ++ unionAll.tokens ++ plainBranch)).columns =
        ["a".toList] ++ ["b".toList] := by
  have paired : Paired joinedBranch := by decide
  obtain ⟨tables, columns⟩ := ofTokens_separated paired unionAll plainBranch
  have first : References.ofTokens joinedBranch = ⟨["t", "u"], ["a"]⟩ := by decide +kernel
  have second : References.ofTokens plainBranch = ⟨["v"], ["b"]⟩ := by decide +kernel
  rw [first, second] at tables columns
  exact ⟨by decide +kernel, paired, tables, columns⟩

def chain (first : List Token) (others : List (Separator × List Token)) : List Token :=
  first ++ others.flatMap fun x => x.1.tokens ++ x.2

theorem ofTokens_chain {first : List Token} {others : List (Separator × List Token)}
    (h : ∀ branch ∈ first :: others.map Prod.snd, Paired branch) :
    (References.ofTokens (chain first others)).tables =
        (first :: others.map Prod.snd).flatMap (fun branch => (References.ofTokens branch).tables) ∧
      (References.ofTokens (chain first others)).columns =
        (first :: others.map Prod.snd).flatMap fun branch =>
          (References.ofTokens branch).columns := by
  induction others generalizing first with
  | nil => simp [chain]
  | cons x others ih =>
    obtain ⟨s, second⟩ := x
    obtain ⟨paired, h⟩ := List.forall_mem_cons.1 h
    obtain ⟨tables, columns⟩ := ih h
    have parted : chain first ((s, second) :: others) =
        first ++ s.tokens ++ chain second others := by
      simp [chain]
    rw [parted, s.ofTokens_parted paired.foldl_nest, List.flatMap_cons, List.flatMap_cons]
    exact ⟨congrArg _ tables, congrArg _ columns⟩

end Separators

end SqlReview.Query.Branches
