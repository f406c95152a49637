import SqlReview.Proofs.Sql.Comments
import SqlReview.Proofs.Query.Reading

/-!
Comments in lists of tables and columns. A comment counts as a blank where lists are told from the
rest of the statement, but inside a list its text is part of the item. It does no harm there if a
word of the same item follows it and it has no comma; the last word of an item that ends in a comment
is the comment's.
-/
namespace SqlReview.Query

open Sql

section Texts

variable {s t x y u v : Text} {c : Char}

def firstItem (s : Text) : Text := s.takeWhile (· != ',')

def laterReferences (s : Text) : List Text :=
  match s.dropWhile (· != ',') with
  | [] => []
  | _ :: later => references later

theorem bne_comma {s : Text} (h : ',' ∉ s) : ∀ c ∈ s, (c != ',') = true := by
  intro c hc
  rw [bne_iff_ne]
  rintro rfl
  exact h hc

theorem firstItem_append (h : ',' ∉ s) (t : Text) : firstItem (s ++ t) = s ++ firstItem t :=
  List.takeWhile_append_of_pos (bne_comma h)

theorem references_first (h : ',' ∉ s) (t : Text) : references (s ++ t) =
    (Text.words (s ++ firstItem t)).getLast?.toList ++ laterReferences t := by
  have whole := List.takeWhile_append_dropWhile (p := (· != ',')) (l := t)
  have free : ',' ∉ firstItem t := by
    intro comma
    simpa using List.all_eq_true.1 List.all_takeWhile _ comma
  have item : ',' ∉ s ++ firstItem t := by
    rw [List.mem_append, not_or]
    exact ⟨h, free⟩
  have first := List.head?_dropWhile_not (· != ',') t
  unfold laterReferences
  generalize t.dropWhile (· != ',') = rest at whole first ⊢
  cases rest with
  | nil =>
    rw [List.append_nil] at whole ⊢
    rw [← references_of_no_comma item, firstItem, whole]
  | cons d later =>
    have comma : d = ',' := by simpa using first
    subst comma
    rw [← references_of_no_comma item, ← references_append_comma, List.append_assoc]
    exact congrArg (fun t => references (s ++ t)) whole.symm

theorem exists_lastItem (s : Text) : ∃ front item, ',' ∉ item ∧
    ∀ t, references (s ++ t) = front ++ references (item ++ t) := by
  by_cases comma : ',' ∈ s
  · obtain ⟨back, front, e, none⟩ := List.eq_append_cons_of_mem (List.mem_reverse.2 comma)
    have parted : s = front.reverse ++ ',' :: back.reverse := by
      rw [← List.reverse_reverse s, e]
      simp
    refine ⟨references front.reverse, back.reverse, by simpa using none, fun t => ?_⟩
    rw [parted, List.append_assoc, List.cons_append, references_append_comma]
  · exact ⟨[], s, comma, fun _ => rfl⟩

/-- Inside an item, texts can be exchanged that leave its last word. -/
theorem references_exchange (hx : ',' ∉ x) (hy : ',' ∉ y)
    (same : ∀ item, (Text.words (item ++ (x ++ firstItem t))).getLast? =
      (Text.words (item ++ (y ++ firstItem t))).getLast?) (s : Text) :
    references (s ++ (x ++ t)) = references (s ++ (y ++ t)) := by
  obtain ⟨front, item, none, parted⟩ := exists_lastItem s
  have noX : ',' ∉ item ++ x := by
    rw [List.mem_append, not_or]
    exact ⟨none, hx⟩
  have noY : ',' ∉ item ++ y := by
    rw [List.mem_append, not_or]
    exact ⟨none, hy⟩
  have first := references_first noX t
  have second := references_first noY t
  rw [List.append_assoc, List.append_assoc] at first second
  rw [parted, parted, first, second, same]

/-- A word begins in a text right after a blank and before the first comma; `before` is the character
that the text follows. -/
def Follows (before : Option Char) (s : Text) : Prop :=
  ∃ u c v, s = u ++ c :: v ∧ ',' ∉ u ∧ c ≠ ',' ∧ Text.isBlank c = false ∧
    (Pattern.charBefore before u).any Text.isBlank = true

theorem words_follow (solid : Text.isBlank c = false)
    (blank : (Pattern.charBefore x.getLast? u).any Text.isBlank = true) (s : Text) :
    (Text.words (s ++ (x ++ (u ++ c :: v)))).getLast? = (Text.words (c :: v)).getLast? := by
  rw [Pattern.charBefore, ← List.getLast?_append, Option.any_eq_true] at blank
  obtain ⟨b, last, hb⟩ := blank
  obtain ⟨w, e⟩ := List.getLast?_eq_some_iff.1 last
  have parted : s ++ (x ++ (u ++ c :: v)) = (s ++ w) ++ b :: c :: v := by
    rw [← List.append_assoc x, e]
    simp
  have filled : Text.words (c :: v) ≠ [] := Text.words_ne_nil List.mem_cons_self solid
  rw [parted, Text.words_append_blank hb, List.getLast?_append, List.getLast?_eq_some_getLast filled]
  rfl

theorem references_follow (hx : ',' ∉ x) (hy : ',' ∉ y) (follows : Follows x.getLast? t)
    (blank : y.getLast?.any Text.isBlank = true) (s : Text) :
    references (s ++ (x ++ t)) = references (s ++ (y ++ t)) := by
  obtain ⟨u, c, v, rfl, none, other, solid, before⟩ := follows
  have item : firstItem (u ++ c :: v) = u ++ c :: firstItem v := by
    have free : ',' ∉ u ++ [c] := by simp [none, other.symm]
    have whole := firstItem_append free v
    simpa using whole
  have before' : (Pattern.charBefore y.getLast? u).any Text.isBlank = true := by
    unfold Pattern.charBefore at before ⊢
    cases e : u.getLast? with
    | none => exact blank
    | some d => rwa [e] at before
  apply references_exchange hx hy
  intro s
  rw [item, words_follow solid before, words_follow solid before']

theorem references_gap (filledX : x ≠ []) (blankX : ∀ c ∈ x, Text.isBlank c = true)
    (filledY : y ≠ []) (blankY : ∀ c ∈ y, Text.isBlank c = true) (s t : Text) :
    references (s ++ (x ++ t)) = references (s ++ (y ++ t)) := by
  apply references_exchange (Text.not_mem_of_blank blankX (by decide))
    (Text.not_mem_of_blank blankY (by decide))
  intro s
  rw [Text.words_append_gap filledX blankX, Text.words_append_gap filledY blankY]

theorem words_cons {w : Text} (c : Char) (h : (Text.words s).getLast? = some w) :
    ∃ p, (Text.words (c :: s)).getLast? = some (p ++ w) := by
  cases e : Text.cut Text.isBlank s with
  | nil => exact absurd e (Text.cut_ne_nil Text.isBlank s)
  | cons first others =>
    unfold Text.words at h ⊢
    rw [e] at h
    rw [Text.cut, e]
    by_cases blank : Text.isBlank c = true
    · exact ⟨[], by simpa [blank] using h⟩
    · by_cases last : others.filter (fun w => !w.isEmpty) = []
      · have only : first = w := by
          cases first with
          | nil => simp [last] at h
          | cons d first => simpa [last] using h
        exact ⟨[c], by simp [blank, last, only]⟩
      · refine ⟨[], ?_⟩
        have tail : (others.filter fun w => !w.isEmpty).getLast? = some w := by
          cases first with
          | nil => rwa [List.filter_cons_of_neg (by simp)] at h
          | cons d first =>
            rw [List.filter_cons_of_pos (by simp), List.getLast?_cons,
              List.getLast?_eq_some_getLast last] at h
            rw [List.getLast?_eq_some_getLast last]
            exact h
        simp [blank, List.getLast?_cons, tail]

theorem words_append {w : Text} (h : (Text.words t).getLast? = some w) (s : Text) :
    ∃ p, (Text.words (s ++ t)).getLast? = some (p ++ w) := by
  induction s with
  | nil => exact ⟨[], h⟩
  | cons c s ih =>
    obtain ⟨p, last⟩ := ih
    obtain ⟨p', last'⟩ := words_cons c last
    exact ⟨p' ++ p, by rw [List.cons_append, last', List.append_assoc]⟩

theorem exists_reference_suffix {w : Text} (hx : ',' ∉ x) (last : (Text.words x).getLast? = some w)
    (blank : ∀ c ∈ firstItem t, Text.isBlank c = true) (s : Text) :
    ∃ r ∈ references (s ++ (x ++ t)), w <:+ r := by
  obtain ⟨front, item, none, parted⟩ := exists_lastItem s
  have free : ',' ∉ item ++ x := by
    rw [List.mem_append, not_or]
    exact ⟨none, hx⟩
  obtain ⟨p, e⟩ := words_append last item
  have first := references_first free t
  rw [Text.words_append_of_blank blank, e, List.append_assoc] at first
  refine ⟨p ++ w, ?_, List.suffix_append p w⟩
  rw [parted, first]
  simp

end Texts

section Places

variable {clause : Clause} {state : GroupState} {k b t : Token} {back opening ts : List Token}
  {place : Place}

def Opens (t : Token) : Prop :=
  (t.isWhitespace = true ∧ t.text.all Text.isBlank = true) ∨ TopLevel.restricts t = true

instance (t : Token) : Decidable (Opens t) :=
  inferInstanceAs (Decidable ((t.isWhitespace = true ∧ t.text.all Text.isBlank = true) ∨
    TopLevel.restricts t = true))

/-- After the comment a word of the same item follows. Before the first column there is more to
look through, since DISTINCT and ALL are no words of an item without the comment. -/
inductive Hidden (k : Token) : Clause → GroupState → List Token → Prop
  | word {clause : Clause} {state : GroupState} {back : List Token}
      (later : clause = .from_ ∨ state.leading = false)
      (follows : Follows k.text.getLast? (collectGroup clause ⟨state.depth, false, false⟩ back).1) :
      Hidden k clause state back
  | first {opening back : List Token} (opens : ∀ t ∈ opening, Opens t)
      (item : ∀ t ∈ back.head?, t.text.all Text.isBlank = false ∧ TopLevel.restricts t = false)
      (follows : Follows (Pattern.charBefore k.text.getLast? (opening.flatMap Token.text))
        (collectGroup .select ⟨0, false, false⟩ back).1) :
      Hidden k .select ⟨0, true, false⟩ (opening ++ back)

/-- A comment does no harm outside lists and in the predicate of a join. In a list it does none if it
has no comma and a word of the item follows. -/
def Harmless (k : Token) (back : List Token) : Place → Prop
  | .outside _ => True
  | .inside clause state _ =>
    state.inPredicate = true ∨ ',' ∉ k.text ∧ state.inPredicate = false ∧ Hidden k clause state back

theorem isPunctuation_whitespace (h : t.isWhitespace = true) (c : Char) :
    t.isPunctuation c = false := by
  have kind : t.kind = .whitespace := by simpa [Token.isWhitespace] using h
  simp [Token.isPunctuation, kind]

theorem isKeyword_whitespace (h : t.isWhitespace = true) (w : Text) : t.isKeyword w = false := by
  have kind : t.kind = .whitespace := by simpa [Token.isWhitespace] using h
  exact isKeyword_of_kind (kind ▸ TokenKind.noConfusion) w

theorem endsGroup_whitespace (h : t.isWhitespace = true) : endsGroup t = false := by
  simp [endsGroup, isPunctuation_whitespace h, Token.isAnyKeyword, isKeyword_whitespace h]

theorem step_whitespace (h : t.isWhitespace = true) (clause : Clause) (state : GroupState) :
    state.step clause t = some (if state.inPredicate then [] else t.text, ⟨state.depth,
      state.leading && (if state.inPredicate then [] else t.text).all Text.isBlank,
      state.inPredicate⟩) := by
  have level : nest state.depth t = state.depth := by
    simp [nest, isPunctuation_whitespace h]
  cases clause <;> simp [GroupState.step, endsGroup_whitespace h, isPunctuation_whitespace h,
    isKeyword_whitespace h, Token.isAnyKeyword, level]

theorem rest_outside_whitespace (h : t.isWhitespace = true) (depth : Nat) (ts : List Token) :
    (Place.outside depth).rest (t :: ts) = (Place.outside depth).rest ts := by
  simp [Place.rest_cons, Place.step, Place.afterOutside, isPunctuation_whitespace h,
    isKeyword_whitespace h, References.empty_append]

theorem rest_inside_whitespace (h : t.isWhitespace = true) (text : Text) (ts : List Token) :
    (Place.inside clause state text).rest (t :: ts) =
      (Place.inside clause ⟨state.depth,
        state.leading && (if state.inPredicate then [] else t.text).all Text.isBlank,
        state.inPredicate⟩ (text ++ if state.inPredicate then [] else t.text)).rest ts := by
  rw [Place.rest_cons, Place.step, step_whitespace h]
  rfl

theorem rest_predicate_whitespace (h : t.isWhitespace = true) (inside : state.inPredicate = true)
    (text : Text) (ts : List Token) : (Place.inside clause state text).rest (t :: ts) =
      (Place.inside clause state text).rest ts := by
  obtain ⟨depth, leading, inPredicate⟩ := state
  obtain rfl : inPredicate = true := inside
  rw [rest_inside_whitespace h]
  simp

/-- Texts of a list that leave its references can be exchanged if it goes on in the same way. -/
theorem rest_inside_congr {state' : GroupState} {text text' : Text} {ts ts' : List Token}
    (rest : (collectGroup clause state ts).2 = (collectGroup clause state' ts').2)
    (same : references (text ++ (collectGroup clause state ts).1) =
      references (text' ++ (collectGroup clause state' ts').1)) :
    (Place.inside clause state text).rest ts = (Place.inside clause state' text').rest ts' := by
  rw [Place.rest, Place.rest, rest]
  cases clause <;> simp only [References.ofList, same]

theorem not_mem_comma_of_opens (h : Opens t) : ',' ∉ t.text := by
  rcases h with ⟨_, blank⟩ | restricted
  · exact Text.not_mem_of_blank (List.all_eq_true.1 blank) (by decide)
  · intro comma
    have lowered : ',' ∈ Text.lower t.text := List.mem_map.2 ⟨',', comma, rfl⟩
    simp only [TopLevel.restricts, Token.isKeyword, Text.eqIgnoreCase, Bool.or_eq_true,
      Bool.and_eq_true, beq_iff_eq] at restricted
    rcases restricted with ⟨_, e⟩ | ⟨_, e⟩
    · rw [e] at lowered
      exact absurd lowered (by decide)
    · rw [e] at lowered
      exact absurd lowered (by decide)

theorem step_opens (h : Opens t) :
    GroupState.step .select ⟨0, false, false⟩ t = some (t.text, ⟨0, false, false⟩) := by
  rcases h with ⟨space, _⟩ | restricted
  · rw [step_whitespace space]
    rfl
  · have known : t.isAnyKeyword (["DISTINCT", "ALL"] : List Text) = true := by
      simpa [Token.isAnyKeyword, TopLevel.restricts] using restricted
    have goesOn : endsGroup t = false := TopLevel.endsGroup_of_isAnyKeyword known (by decide)
    have level : nest 0 t = 0 := Place.nest_of_either restricted 0
    unfold GroupState.step
    simp [goesOn, level]

theorem collectGroup_opens (h : ∀ t ∈ opening, Opens t) (back : List Token) :
    collectGroup .select ⟨0, false, false⟩ (opening ++ back) =
      (opening.flatMap Token.text ++ (collectGroup .select ⟨0, false, false⟩ back).1,
        (collectGroup .select ⟨0, false, false⟩ back).2) := by
  induction opening with
  | nil => rfl
  | cons t opening ih =>
    obtain ⟨first, h⟩ := List.forall_mem_cons.1 h
    rw [List.cons_append, collectGroup, step_opens first]
    simp only [ih h, List.flatMap_cons, List.append_assoc]

/-- The same is found with a blank in the place of a comment that does no harm. -/
theorem rest_of_harmless (comment : k.isWhitespace = true) (solid : k.text.all Text.isBlank = false)
    (space : b.isWhitespace = true) (filled : b.text ≠ [])
    (blank : ∀ c ∈ b.text, Text.isBlank c = true) (h : Harmless k back place) :
    place.rest (k :: back) = place.rest (b :: back) := by
  cases place with
  | outside depth => rw [rest_outside_whitespace comment, rest_outside_whitespace space]
  | inside clause state text =>
    have blankAll : b.text.all Text.isBlank = true := List.all_eq_true.2 blank
    have lastBlank (s : Text) (hs : ∀ c ∈ s, Text.isBlank c = true) :
        (b.text ++ s).getLast?.any Text.isBlank = true := by
      obtain ⟨c, e⟩ := Option.ne_none_iff_exists'.1 fun none =>
        filled (List.append_eq_nil_iff.1 (List.getLast?_eq_none_iff.1 none)).1
      rw [e]
      rcases List.mem_append.1 (List.mem_of_getLast? e) with hc | hc
      · exact blank c hc
      · exact hs c hc
    rcases h with inside | ⟨whole, listed, hidden⟩
    · rw [rest_predicate_whitespace comment inside, rest_predicate_whitespace space inside]
    · obtain ⟨depth, leading, inPredicate⟩ := state
      obtain rfl : inPredicate = false := listed
      rw [rest_inside_whitespace comment, rest_inside_whitespace space]
      simp only [solid, blankAll, Bool.and_false, Bool.and_true, Bool.false_eq_true, if_false]
      cases hidden with
      | word later follows =>
        have same : collectGroup clause ⟨depth, leading, false⟩ back =
            collectGroup clause ⟨depth, false, false⟩ back := by
          rcases later with rfl | plain
          · exact TopLevel.collectGroup_tables_leading
          · obtain rfl : leading = false := plain
            rfl
        apply rest_inside_congr
        · rw [same]
        · rw [same, List.append_assoc, List.append_assoc]
          have last := lastBlank [] (List.forall_mem_nil _)
          rw [List.append_nil] at last
          exact references_follow whole (Text.not_mem_of_blank blank (by decide)) follows last text
      | @first opening back opens item follows =>
        obtain ⟨gap, gaps, opened⟩ := TopLevel.collectGroup_opening opens
        have plain := TopLevel.collectGroup_columns_leading fun t ht => .inr (item t ht)
        have free : ',' ∉ opening.flatMap Token.text := by
          rw [List.mem_flatMap]
          rintro ⟨t, ht, comma⟩
          exact not_mem_comma_of_opens (opens t ht) comma
        apply rest_inside_congr
        · rw [collectGroup_opens opens, opened, plain]
        · rw [collectGroup_opens opens, opened, plain]
          have whole' : ',' ∉ k.text ++ opening.flatMap Token.text := by
            rw [List.mem_append, not_or]
            exact ⟨whole, free⟩
          have blank' : ',' ∉ b.text ++ gap := by
            rw [List.mem_append, not_or]
            exact ⟨Text.not_mem_of_blank blank (by decide), Text.not_mem_of_blank gaps (by decide)⟩
          rw [Pattern.charBefore, ← List.getLast?_append] at follows
          have same := references_follow whole' blank' follows (lastBlank gap gaps) text
          simpa only [List.append_assoc] using same

theorem rest_blanks (space : b.isWhitespace = true) (filled : b.text ≠ [])
    (blank : ∀ c ∈ b.text, Text.isBlank c = true) (place : Place) (back : List Token) :
    place.rest (b :: b :: back) = place.rest (b :: back) := by
  cases place with
  | outside depth => rw [rest_outside_whitespace space]
  | inside clause state text =>
    obtain ⟨depth, leading, inPredicate⟩ := state
    cases inPredicate with
    | true => rw [rest_predicate_whitespace space rfl]
    | false =>
      have blankAll : b.text.all Text.isBlank = true := List.all_eq_true.2 blank
      rw [rest_inside_whitespace space, rest_inside_whitespace space, rest_inside_whitespace space]
      simp only [blankAll, Bool.and_true, Bool.false_eq_true, if_false]
      apply rest_inside_congr rfl
      have twice : ∀ c ∈ b.text ++ b.text, Text.isBlank c = true := by
        intro c hc
        exact (List.mem_append.1 hc).elim (blank c) (blank c)
      have same := references_gap (fun e => filled (List.append_eq_nil_iff.1 e).1) twice filled blank
        text (collectGroup clause ⟨depth, leading, false⟩ back).1
      simpa only [List.append_assoc] using same

end Places

section Queries

variable {ls ls' : List Lexeme} {query : Text}

theorem isWhitespace_of_isComment {k : Lexeme} (h : k.isComment = true) :
    k.token.isWhitespace = true ∧ k.token.text.all Text.isBlank = false := by
  cases k with
  | lineComment | blockComment => exact ⟨rfl, rfl⟩
  | _ => cases h

theorem blanked_of_isComment {k : Lexeme} (h : k.isComment = true) :
    k.blanked.token.isWhitespace = true ∧ k.blanked.token.text ≠ [] ∧
      ∀ c ∈ k.blanked.token.text, Text.isBlank c = true := by
  cases k with
  | lineComment | blockComment => exact ⟨rfl, List.cons_ne_nil _ _, List.forall_mem_singleton.2 rfl⟩
  | _ => cases h

theorem blanked_of_kept {l : Lexeme} (h : l.isComment = false) : l.blanked = l := by
  cases l with
  | lineComment | blockComment => cases h
  | _ => rfl

def AllHarmless (before ls : List Lexeme) : Prop :=
  ∀ front k back, ls = front ++ k :: back → k.isComment = true →
    Harmless k.token ((back.map Lexeme.blanked).map Lexeme.token)
      (placeAfter ((before ++ front).map Lexeme.token))

theorem allHarmless_cons {before : List Lexeme} {l : Lexeme} : AllHarmless before (l :: ls) ↔
    (l.isComment = true → Harmless l.token ((ls.map Lexeme.blanked).map Lexeme.token)
      (placeAfter (before.map Lexeme.token))) ∧ AllHarmless (before ++ [l]) ls := by
  constructor
  · intro h
    constructor
    · intro comment
      have here := h [] l ls rfl comment
      rwa [List.append_nil] at here
    · intro front k back e comment
      have here := h (l :: front) k back (by rw [e]; rfl) comment
      rwa [List.append_cons] at here
  · rintro ⟨first, later⟩ front k back e comment
    cases front with
    | nil =>
      obtain ⟨rfl, rfl⟩ := List.cons.inj e
      rw [List.append_nil]
      exact first comment
    | cons m front =>
      obtain ⟨rfl, rfl⟩ := List.cons.inj e
      rw [List.append_cons]
      exact later front k back rfl comment

theorem allHarmless_append {before kept : List Lexeme} (h : ∀ l ∈ kept, l.isComment = false)
    (later : AllHarmless (before ++ kept) ls) : AllHarmless before (kept ++ ls) := by
  induction kept generalizing before with
  | nil => rwa [List.append_nil] at later
  | cons l kept ih =>
    obtain ⟨first, h⟩ := List.forall_mem_cons.1 h
    rw [List.append_cons] at later
    refine allHarmless_cons.2 ⟨?_, ih h later⟩
    intro comment
    rw [first] at comment
    cases comment

/-- One comment after the other is taken out, the last one first. -/
theorem ofTokens_blanked (before : List Lexeme) (h : AllHarmless before ls) :
    References.ofTokens ((before ++ ls).map Lexeme.token) =
      References.ofTokens ((before ++ ls.map Lexeme.blanked).map Lexeme.token) := by
  induction ls generalizing before with
  | nil => rfl
  | cons l ls ih =>
    obtain ⟨here, later⟩ := allHarmless_cons.1 h
    have last := ih (before ++ [l]) later
    rw [List.append_assoc, List.singleton_append, List.append_assoc, List.singleton_append] at last
    rw [last, List.map_cons]
    cases comment : l.isComment with
    | false => rw [blanked_of_kept comment]
    | true =>
      obtain ⟨space, solid⟩ := isWhitespace_of_isComment comment
      obtain ⟨space', filled, blank⟩ := blanked_of_isComment comment
      rw [List.map_append, List.map_append, List.map_cons, List.map_cons]
      exact ofTokens_congr (rest_of_harmless space solid space' filled blank (here comment))

theorem ofTokens_cleaned (before : List Lexeme) (h : Cleaned ls ls') :
    References.ofTokens ((before ++ ls.map Lexeme.blanked).map Lexeme.token) =
      References.ofTokens ((before ++ ls').map Lexeme.token) := by
  induction h generalizing before with
  | nil => rfl
  | @keep l ls ls' kept _ ih =>
    have later := ih (before ++ [l])
    rw [List.append_assoc, List.append_assoc] at later
    rw [List.map_cons, blanked_of_kept kept]
    exact later
  | @blank l ls ls' _ _ ih =>
    have later := ih (before ++ [l.blanked])
    rw [List.append_assoc, List.append_assoc] at later
    exact later
  | @joined ls ls' body _ ih =>
    have later := ih (before ++ [.blank '\n', .blank '\n'])
    rw [List.append_assoc, List.append_assoc] at later
    have blank : ∀ c ∈ (Lexeme.blank '\n').token.text, Text.isBlank c = true :=
      List.forall_mem_singleton.2 rfl
    refine later.trans ?_
    simp only [List.map_append, List.map_cons, List.cons_append, List.nil_append]
    exact ofTokens_congr (rest_blanks rfl (List.cons_ne_nil _ _) blank _ _)

theorem isComment_of_cleaned (h : Cleaned ls ls') : ∀ l ∈ ls', l.isComment = false := by
  have blanked {l : Lexeme} (comment : l.isComment = true) : l.blanked.isComment = false := by
    cases l with
    | lineComment | blockComment => rfl
    | _ => cases comment
  induction h with
  | nil => exact List.forall_mem_nil _
  | keep kept _ ih => exact List.forall_mem_cons.2 ⟨kept, ih⟩
  | blank comment _ ih => exact List.forall_mem_cons.2 ⟨blanked comment, ih⟩
  | joined _ _ ih => exact List.forall_mem_cons.2 ⟨rfl, ih⟩

/-- The comment stands in a list, and of its item only blanks come after it. -/
def EndsItem (k : Token) (back : List Token) : Place → Prop
  | .outside _ => False
  | .inside clause state _ => state.inPredicate = false ∧ ',' ∉ k.text ∧
    ∀ c ∈ firstItem (collectGroup clause ⟨state.depth, false, false⟩ back).1, Text.isBlank c = true

theorem exists_mem_rest {k : Token} {back : List Token} {place : Place} {w : Text}
    (comment : k.isWhitespace = true) (solid : k.text.all Text.isBlank = false)
    (last : (Text.words k.text).getLast? = some w) (h : EndsItem k back place) :
    ∃ r ∈ (place.rest (k :: back)).tables ++ (place.rest (k :: back)).columns, w <:+ r := by
  cases place with
  | outside depth => cases h
  | inside clause state text =>
    obtain ⟨depth, leading, inPredicate⟩ := state
    obtain ⟨listed, whole, blank⟩ := h
    obtain rfl : inPredicate = false := listed
    obtain ⟨r, hr, suffix⟩ := exists_reference_suffix whole last blank text
    refine ⟨r, ?_, suffix⟩
    rw [rest_inside_whitespace comment]
    simp only [solid, Bool.and_false, Bool.false_eq_true, if_false, Place.rest,
      References.append, List.append_assoc]
    cases clause with
    | select => simp [References.ofList, hr]
    | from_ => simp [References.ofList, hr]

/-- A query without its comments can be read, and refers to the same as long as its comments do no
harm. One that ends an item of a list does: its last word, such as the mark that closes a comment, is
then a part of a reference. -/
theorem ofQuery_uncommented (h : lexemes query = .ok ls) :
    (∃ ls', lexemes (uncommented query) = .ok ls' ∧ ∀ l ∈ ls', l.isComment = false) ∧
      (AllHarmless [] ls → References.ofQuery (uncommented query) = References.ofQuery query) ∧
      ∀ front k back w, ls = front ++ k :: back → k.isComment = true →
        EndsItem k.token (back.map Lexeme.token) (placeAfter (front.map Lexeme.token)) →
        (Text.words k.spelling).getLast? = some w →
        ∃ r ∈ (References.ofQuery query).tables ++ (References.ofQuery query).columns, w <:+ r := by
  obtain ⟨ls', cut, cleaned⟩ := lexemes_uncommented h
  refine ⟨⟨ls', cut, isComment_of_cleaned cleaned⟩, fun harmless => ?_, ?_⟩
  · have blanked := ofTokens_blanked [] harmless
    rw [ofQuery_of_lexemes h, ofQuery_of_lexemes cut]
    exact (blanked.trans (ofTokens_cleaned [] cleaned)).symm
  · rintro front k back w rfl comment ends last
    obtain ⟨space, solid⟩ := isWhitespace_of_isComment comment
    obtain ⟨found, read⟩ := Place.rest_append (.outside 0) (front.map Lexeme.token)
    obtain ⟨r, hr, suffix⟩ := exists_mem_rest space solid last ends
    refine ⟨r, ?_, suffix⟩
    have parted : References.ofTokensFrom 0 ((front ++ k :: back).map Lexeme.token) =
        found.append ((placeAfter (front.map Lexeme.token)).rest
          (k.token :: back.map Lexeme.token)) := by
      rw [List.map_append, List.map_cons]
      exact read _
    rw [ofQuery_of_lexemes h, parted]
    simp only [References.append, List.mem_append] at hr ⊢
    exact hr.imp .inr .inr

def annotated : Text := "SELECT /* c */ DISTINCT a FROM t /* c */ x JOIN u ON -- c,\nb = d"

namespace Annotated

def lead : List Lexeme := [.word "SELECT", .blank ' ']

def columns : List Lexeme :=
  [.blank ' ', .word "DISTINCT", .blank ' ', .word "a", .blank ' ', .word "FROM", .blank ' ',
    .word "t", .blank ' ']

def tables : List Lexeme :=
  [.blank ' ', .word "x", .blank ' ', .word "JOIN", .blank ' ', .word "u", .blank ' ', .word "ON",
    .blank ' ']

def predicate : List Lexeme := [.word "b", .blank ' ', .symbol ['='], .blank ' ', .word "d"]

def note : Lexeme := .blockComment " c "

def lastNote : Lexeme := .lineComment " c,\n"

def lexemes : List Lexeme :=
  lead ++ note :: (columns ++ note :: (tables ++ lastNote :: (predicate ++ [])))

def table : List Lexeme := [.word "FROM", .blank ' ', .word "t", .blank ' ']

theorem lexemes_annotated : Sql.lexemes annotated = .ok lexemes :=
  lexemes_of_readsAs (by decide)

theorem lexemes_trailing : Sql.lexemes "FROM t /* c */" = .ok (table ++ note :: []) :=
  lexemes_of_readsAs (by decide)

theorem placeAfter_table :
    placeAfter (table.map Lexeme.token) = .inside .from_ ⟨0, false, false⟩ " t " := by
  decide

theorem hidden_first : Hidden note.token .select ⟨0, true, false⟩
    (((columns ++ note :: (tables ++ lastNote :: (predicate ++ []))).map Lexeme.blanked).map
      Lexeme.token) := by
  rw [← List.take_append_drop 3 (List.map Lexeme.token _)]
  exact .first (by decide) (by decide)
    ⟨[], 'a', " ", by decide, by decide, by decide, by decide, by decide⟩

theorem allHarmless : AllHarmless [] lexemes := by
  have first : placeAfter (lead.map Lexeme.token) = .inside .select ⟨0, true, false⟩ " " := by
    decide
  have second : placeAfter ((lead ++ [note] ++ columns).map Lexeme.token) =
      .inside .from_ ⟨0, false, false⟩ " t " := by decide
  have third : placeAfter ((lead ++ [note] ++ columns ++ [note] ++ tables).map Lexeme.token) =
      .inside .from_ ⟨0, false, true⟩ " t /* c */ x , u " := by decide
  apply allHarmless_append (by decide)
  refine allHarmless_cons.2 ⟨fun _ => ?_, allHarmless_append (by decide) ?_⟩
  · rw [List.nil_append, first]
    exact .inr ⟨by decide, rfl, hidden_first⟩
  refine allHarmless_cons.2 ⟨fun _ => ?_, allHarmless_append (by decide) ?_⟩
  · rw [List.nil_append, second]
    exact .inr ⟨by decide, rfl, .word (.inl rfl)
      ⟨" ", 'x', " , u ", by decide, by decide, by decide, by decide, by decide⟩⟩
  refine allHarmless_cons.2 ⟨fun _ => ?_, allHarmless_append (by decide) ?_⟩
  · rw [List.nil_append, third]
    exact .inl rfl
  · rintro front k back e
    cases front <;> cases e

end Annotated

theorem ofQuery_uncommented_annotated :
    uncommented annotated = "SELECT   DISTINCT a FROM t   x JOIN u ON \nb = d".toList ∧
      References.ofQuery (uncommented annotated) = References.ofQuery annotated ∧
      References.ofQuery annotated = ⟨["x".toList, "u".toList], ["a".toList]⟩ ∧
      ∃ r ∈ (References.ofQuery "FROM t /* c */").tables ++
        (References.ofQuery "FROM t /* c */").columns, "*/".toList <:+ r := by
  obtain ⟨_, same, _⟩ := ofQuery_uncommented Annotated.lexemes_annotated
  obtain ⟨_, _, exposed⟩ := ofQuery_uncommented Annotated.lexemes_trailing
  refine ⟨by decide +kernel, same Annotated.allHarmless, by decide +kernel, ?_⟩
  apply exposed Annotated.table Annotated.note [] "*/" rfl rfl _ (by decide)
  rw [Annotated.placeAfter_table]
  exact ⟨rfl, by decide, List.forall_mem_nil _⟩

/-- A comment after the last table is taken for the table. -/
theorem comment_taken_for_table :
    References.ofQuery "SELECT a FROM t /* c */ WHERE b = 1" = ⟨["*/".toList], ["a".toList]⟩ ∧
      uncommented "SELECT a FROM t /* c */ WHERE b = 1" = "SELECT a FROM t   WHERE b = 1".toList ∧
      References.ofQuery "SELECT a FROM t   WHERE b = 1" = ⟨["t".toList], ["a".toList]⟩ ∧
      ¬ ∀ query ls, lexemes query = .ok ls →
        References.ofQuery (uncommented query) = References.ofQuery query := by
  have commented : References.ofQuery "SELECT a FROM t /* c */ WHERE b = 1" =
      ⟨["*/".toList], ["a".toList]⟩ := by decide +kernel
  have cleaned : uncommented "SELECT a FROM t /* c */ WHERE b = 1" =
      "SELECT a FROM t   WHERE b = 1".toList := by decide +kernel
  have found : References.ofQuery "SELECT a FROM t   WHERE b = 1" =
      ⟨["t".toList], ["a".toList]⟩ := by decide +kernel
  refine ⟨commented, cleaned, found, ?_⟩
  intro same
  cases e : lexemes "SELECT a FROM t /* c */ WHERE b = 1" with
  | error fault =>
    have readable : (lexemes "SELECT a FROM t /* c */ WHERE b = 1").toOption.isSome = true := by
      decide +kernel
    rw [e] at readable
    cases readable
  | ok ls =>
    have both := same _ ls e
    rw [commented, cleaned, found] at both
    exact absurd both (by decide)

end Queries

end SqlReview.Query
