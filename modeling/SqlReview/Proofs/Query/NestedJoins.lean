import Mathlib.Data.List.Basic
import SqlReview.Proofs.Query.JoinScope
import SqlReview.Proofs.Query.Nested

/-!
The joins of nested statements. A JOIN is read up to the parenthesis that encloses it, and what
stands in parentheses is passed over when its ON and its end are looked for, so every join tells its
own table and predicate, at any depth.
-/
namespace SqlReview.Query.Nested

open Sql
open Pattern (Starts Clear charBefore inWord)

section Words

variable {ws : List Text}

theorem Space.inWord_head (g : Space) (s : Text) : inWord (g.text ++ s).head? = false :=
  Pattern.inWord_head_blank g.filled g.blank s

theorem Word.neutral (w : Word) (sub : ws ⊆ reservedWords) : Neutral ws w.text :=
  .run w.word fun _ hw => w.free _ (sub hw)

theorem Operand.neutral (o : Operand) (sub : ws ⊆ reservedWords) : Neutral ws o.text := by
  have sign : ∀ c ∈ (if o.negative then ['-'] else []), c = '-' := by
    intro c hc
    split at hc
    · exact List.mem_singleton.1 hc
    · cases hc
  have others : Neutral ws (o.others.flatMap fun w => '.' :: w.text) ∧
      inWord (o.others.flatMap fun w => '.' :: w.text).head? = false := by
    induction o.others with
    | nil => exact ⟨.nil, rfl⟩
    | cons w others ih =>
      have mark : Text.isWord '.' = false := by decide
      have dotted : Neutral ws (['.'] ++ w.text) :=
        .marks_append (List.forall_mem_singleton.2 mark) ⟨by decide, by decide⟩ (w.neutral sub)
      exact ⟨dotted.append ih.1 ih.2, mark⟩
  apply Neutral.marks_append
  · intro c hc
    rw [sign c hc]
    decide
  · exact unnested_marks fun c hc => by rw [sign c hc]; decide
  · exact (o.first.neutral sub).append others.1 others.2

theorem Comparison.neutral (c : Comparison) (sub : ws ⊆ reservedWords) : Neutral ws c.text := by
  have marks : ∀ x ∈ c.before.text ++ (c.comparator.text ++ c.after.text),
      Text.isWord x = false := by
    simp only [List.forall_mem_append]
    exact ⟨not_isWord_of_blank c.before.blank,
      fun x hx => (apart_of_sign (c.comparator.mem_signs hx)).1,
      not_isWord_of_blank c.after.blank⟩
  have filled : c.before.text ++ (c.comparator.text ++ c.after.text) ≠ [] := by
    apply List.append_ne_nil_of_right_ne_nil
    apply List.append_ne_nil_of_left_ne_nil
    exact (Solid.sign c.comparator).text_ne_nil
  have flat : Unnested c.comparator.text := by
    cases c.comparator <;> exact ⟨by decide, by decide⟩
  refine (c.left.neutral sub).append (.marks_append marks ?_ (c.right.neutral sub))
    (Pattern.inWord_head_marks filled marks _)
  exact (unnested_blank c.before.blank).append (flat.append (unnested_blank c.after.blank))

theorem Alias.neutral (a : Alias) (sub : ws ⊆ reservedWords) (as_ : "AS".toList ∉ ws) :
    Neutral ws a.text := by
  unfold Alias.text
  cases a.as_ with
  | none => exact a.name.neutral sub
  | some x =>
    exact (Neutral.keyword (by decide) x.1 sub as_).append
      ((a.name.neutral sub).blank_append x.2.blank) (x.2.inWord_head _)

theorem neutral_aliasText (a : Option (Space × Alias)) (sub : ws ⊆ reservedWords)
    (as_ : "AS".toList ∉ ws) : Neutral ws (aliasText a) := by
  cases a with
  | none => exact .nil
  | some x => exact (x.2.neutral sub as_).blank_append x.1.blank

theorem inWord_head_aliasText (a : Option (Space × Alias)) :
    inWord (aliasText a).head? = false := by
  cases a with
  | none => rfl
  | some x => exact x.1.inWord_head _

theorem Between.neutral {w : Text} (b : Between w) (known : w ∈ reservedWords)
    (sub : ws ⊆ reservedWords) (other : w ∉ ws) : Neutral ws b.text :=
  .blank_append b.before.blank
    ((Neutral.keyword known b.keyword sub other).append (.of_blank b.after.blank)
      (inWord_head_of_marks (not_isWord_of_blank b.after.blank)))

theorem Between.text_append {w : Text} (b : Between w) (s : Text) :
    b.text ++ s = b.before.text ++ (b.keyword.text ++ (b.after.text ++ s)) := by
  simp only [Between.text, List.append_assoc]

theorem Between.sealed_append {w s : Text} (b : Between w) (known : w ∈ reservedWords)
    (sub : ws ⊆ reservedWords) (other : w ∉ ws) (h : Sealed ws s) : Sealed ws (b.text ++ s) := by
  rw [b.text_append]
  exact ((Sealed.of_neutral (.keyword known b.keyword sub other)).append
    (h.blank_append b.after.blank) (b.after.inWord_head _)).blank_append b.before.blank

theorem Between.inWord_head {w : Text} (b : Between w) (s : Text) :
    inWord (b.text ++ s).head? = false := by
  rw [b.text_append]
  exact b.before.inWord_head _

theorem neutral_orderText (o : Option OrderBy) (sub : ws ⊆ reservedWords)
    (order : "ORDER".toList ∉ ws) (by_ : "BY".toList ∉ ws) : Neutral ws (orderText o) := by
  cases o with
  | none => exact .nil
  | some o =>
    have name := (o.name.neutral sub).blank_append o.after.blank
    have by_ := (Neutral.keyword (by decide) o.by_ sub by_).append name (o.after.inWord_head _)
    exact ((Neutral.keyword (by decide) o.order sub order).append (by_.blank_append o.gap.blank)
      (o.gap.inWord_head _)).blank_append o.before.blank

theorem inWord_head_orderText (o : Option OrderBy) : inWord (orderText o).head? = false := by
  cases o with
  | none => rfl
  | some o => exact o.before.inWord_head _

theorem Opening.neutral (o : Opening) (sub : ws ⊆ reservedWords) (select : "SELECT".toList ∉ ws)
    (from_ : "FROM".toList ∉ ws) : Neutral ws o.text := by
  have from_ := (Neutral.keyword (by decide) o.from_ sub from_).blank_append o.before.blank
  have column := (o.column.neutral sub).append from_ (o.before.inWord_head _)
  exact (Neutral.keyword (by decide) o.select sub select).append (column.blank_append o.after.blank)
    (o.after.inWord_head _)

end Words

section Edges

variable {s t : Text}

/-- A text that neither starts nor ends with a blank. -/
structure Firm (s : Text) : Prop where
  filled : s ≠ []
  tight : Text.Tight s

theorem Firm.of_solid (filled : s ≠ []) (solid : ∀ c ∈ s, Text.isBlank c = false) : Firm s :=
  ⟨filled, Text.tight_of_solid solid⟩

theorem Firm.mark {c : Char} (solid : Text.isBlank c = false) : Firm [c] :=
  .of_solid (List.cons_ne_nil _ _) (List.forall_mem_singleton.2 solid)

theorem Firm.between (hs : Firm s) (middle : Text) (ht : Firm t) : Firm (s ++ (middle ++ t)) where
  filled := List.append_ne_nil_of_left_ne_nil hs.filled _
  tight := by
    constructor
    · rw [List.head?_append_of_ne_nil _ hs.filled]
      exact hs.tight.1
    · rw [← List.append_assoc, List.getLast?_append_of_ne_nil _ ht.filled]
      exact ht.tight.2

theorem Firm.append (hs : Firm s) (ht : Firm t) : Firm (s ++ t) := hs.between [] ht

theorem Word.firm (w : Word) : Firm w.text := by
  apply Firm.of_solid w.filled
  intro c hc
  rw [← Bool.not_eq_true]
  intro blank
  exact absurd ((w.word c hc).symm.trans (Text.not_isWord_of_isBlank blank)) (by decide)

theorem Keyword.firm {w : Text} (known : w ∈ reservedWords) (k : Keyword w) : Firm k.text :=
  .of_solid (k.filled known) (Solid.keyword known k).not_isBlank

theorem Operand.firm (o : Operand) : Firm o.text := by
  have others {s : Text} (hs : Firm s) : Firm (s ++ o.others.flatMap fun w => '.' :: w.text) := by
    induction o.others generalizing s with
    | nil =>
      rw [List.flatMap_nil, List.append_nil]
      exact hs
    | cons w others ih =>
      rw [List.flatMap_cons, ← List.append_assoc]
      exact ih (hs.between ['.'] w.firm)
  unfold Operand.text
  split
  · exact (Firm.mark (by decide)).append (others o.first.firm)
  · exact others o.first.firm

theorem Comparison.firm (c : Comparison) : Firm c.text := c.left.firm.between _ c.right.firm

theorem Alias.firm (a : Alias) : Firm a.text := by
  unfold Alias.text
  cases a.as_ with
  | none => exact a.name.firm
  | some x => exact (Keyword.firm (by decide) x.1).between _ a.name.firm

theorem Source.firm (x : Source) : Firm x.text := by
  cases x with
  | table gap name alias_ =>
    cases alias_ with
    | none =>
      rw [Source.text, aliasText, Option.map_none, Option.getD_none, List.append_nil]
      exact name.firm
    | some a => exact name.firm.between _ a.2.firm
  | derived gap opening s closing after alias_ =>
    have paren : Firm ['('] := .mark (by decide)
    have text : Source.text (.derived gap opening s closing after alias_) =
        ['('] ++ ((opening.text ++ (s.text ++ closing.text) ++ ')' :: after.text) ++
          alias_.text) := by
      simp [Source.text]
    rw [text]
    exact paren.between _ alias_.firm

theorem Predicate.firm (p : Predicate) : Firm p.text := by
  cases p with
  | comparison c => exact c.firm
  | member left gap in_ after opening s closing =>
    have paren : Firm [')'] := .mark (by decide)
    have text : Predicate.text (.member left gap in_ after opening s closing) =
        left.text ++ ((gap.text ++ (in_.text ++ (after.text ++
          '(' :: (opening.text ++ (s.text ++ closing.text))))) ++ [')']) := by
      simp [Predicate.text]
    rw [text]
    exact left.firm.between _ paren

end Edges

section Shape

variable {closing : Text}

theorem Blanks.inWord_head_group (b : Blanks) (s : Text) :
    inWord (b.text ++ '(' :: s).head? = false := by
  have mark : Text.isWord '(' = false := by decide
  exact inWord_head_append (inWord_head_of_marks (not_isWord_of_blank b.blank)) mark

theorem Source.inWord_head (x : Source) (s : Text) :
    inWord (x.gap ++ x.text ++ s).head? = false := by
  cases x with
  | table gap name alias_ =>
    rw [List.append_assoc]
    exact gap.inWord_head _
  | derived gap opening t closing after alias_ =>
    rw [List.append_assoc]
    exact gap.inWord_head_group _

theorem Tail.inWord_head (t : Tail) : inWord t.text.head? = false := by
  cases t with
  | done order => exact inWord_head_orderText order
  | filter where_ p order =>
    rw [Tail.text, Between.text, List.append_assoc]
    exact where_.before.inWord_head _
  | cross join source rest =>
    rw [Tail.text, JoinWords.text, List.append_assoc]
    exact join.before.inWord_head _
  | on join source on_ p rest =>
    rw [Tail.text, JoinWords.text, List.append_assoc]
    exact join.before.inWord_head _

theorem JoinWords.leads_text (j : JoinWords) : Leads j.leadsText := by
  unfold JoinWords.leadsText
  induction j.leads with
  | nil => exact .none
  | cons l leads ih => exact .lead l.known l.keyword l.gap.filled l.gap.blank ih

theorem JoinWords.unnested (j : JoinWords) : Unnested j.text := by
  have words : Neutral [] (j.leadsText ++ j.join.text) :=
    .leads (List.nil_subset _) (fun _ _ => List.not_mem_nil) j.leads_text j.join
  exact (unnested_blank j.before.blank).append words.unnested

theorem Between.unnested {w : Text} (b : Between w) (known : w ∈ reservedWords) :
    Unnested b.text :=
  (b.neutral known (List.nil_subset _) List.not_mem_nil).unnested

theorem unnested_orderText (o : Option OrderBy) : Unnested (orderText o) :=
  (neutral_orderText o (List.nil_subset _) List.not_mem_nil List.not_mem_nil).unnested

theorem Source.gap_blank (x : Source) : ∀ c ∈ x.gap, Text.isBlank c = true := by
  cases x with
  | table gap name alias_ => exact gap.blank
  | derived gap opening s closing after alias_ => exact gap.blank

theorem Source.balanced_gap (x : Source) : Balanced x.gap :=
  (unnested_blank x.gap_blank).balanced

mutual

theorem Source.sealed (x : Source) : Sealed scopeWords x.text := by
  match x with
  | .table gap name alias_ =>
    exact .of_neutral ((name.neutral scopeWords_subset).append
      (neutral_aliasText alias_ scopeWords_subset (by decide)) (inWord_head_aliasText alias_))
  | .derived gap opening s closing after alias_ =>
    have inner : Balanced (opening.text ++ (s.text ++ closing.text)) :=
      (unnested_blank opening.blank).balanced.append
        (s.balanced.append (unnested_blank closing.blank).balanced)
    exact .group_append inner (.of_neutral
      ((alias_.neutral scopeWords_subset (by decide)).blank_append after.blank))

theorem Predicate.sealed (p : Predicate) : Sealed scopeWords p.text := by
  match p with
  | .comparison c => exact .of_neutral (c.neutral scopeWords_subset)
  | .member left gap in_ after opening s closing =>
    have inner : Balanced (opening.text ++ (s.text ++ closing.text)) :=
      (unnested_blank opening.blank).balanced.append
        (s.balanced.append (unnested_blank closing.blank).balanced)
    have word : Neutral scopeWords in_.text :=
      .keyword (by decide) in_ scopeWords_subset (by decide)
    have front : Neutral scopeWords (left.text ++ (gap.text ++ in_.text)) :=
      (left.neutral scopeWords_subset).append (word.blank_append gap.blank) (gap.inWord_head _)
    have group : Sealed scopeWords
        (after.text ++ '(' :: (opening.text ++ (s.text ++ closing.text) ++ [')'])) :=
      (Sealed.group_append inner (.of_neutral .nil)).blank_append after.blank
    exact (Sealed.of_neutral front).append group (after.inWord_head_group _)

theorem Tail.balanced (t : Tail) : Balanced t.text := by
  match t with
  | .done order => exact (unnested_orderText order).balanced
  | .filter where_ p order =>
    exact (where_.unnested (by decide)).balanced.append
      (p.sealed.balanced.append (unnested_orderText order).balanced)
  | .cross join source rest =>
    exact join.unnested.balanced.append
      ((source.balanced_gap.append source.sealed.balanced).append rest.balanced)
  | .on join source on_ p rest =>
    exact join.unnested.balanced.append
      ((source.balanced_gap.append source.sealed.balanced).append
        ((on_.unnested (by decide)).balanced.append (p.sealed.balanced.append rest.balanced)))

theorem Select.balanced (s : Select) : Balanced s.text := by
  match s with
  | .mk opening source tail =>
    have words : Neutral [] opening.text :=
      opening.neutral (List.nil_subset _) List.not_mem_nil List.not_mem_nil
    exact words.unnested.balanced.append
      ((source.balanced_gap.append source.sealed.balanced).append tail.balanced)

end

theorem Source.balanced_written (x : Source) : Balanced (x.gap ++ x.text) :=
  x.balanced_gap.append x.sealed.balanced

theorem Tail.ends (t : Tail) (blank : ∀ c ∈ closing, Text.isBlank c = true) :
    Ends predicateEnd (t.text ++ closing) := by
  have join (j : JoinWords) {s : Text} (after : inWord s.head? = false) :
      Ends predicateEnd (j.text ++ s) := by
    rw [JoinWords.text, List.append_assoc]
    refine .keyword j.before.filled j.before.blank fun before alone => ?_
    apply Pattern.includes_oneOf List.mem_cons_self
    rw [joinKeyword_covers j.leads_text j.join alone after]
    rfl
  cases t with
  | done order =>
    cases order with
    | none => exact .blank blank
    | some o =>
      rw [Tail.text, orderText, Option.map_some, Option.getD_some, OrderBy.text]
      simp only [List.append_assoc]
      refine .keyword o.before.filled o.before.blank fun before alone => ?_
      apply Pattern.includes_oneOf (q := .phrase "ORDER" "BY") (by simp)
      rw [o.order.phrase_covers (by decide) (by decide) o.gap.filled o.gap.blank o.by_ alone
        (o.after.inWord_head _)]
      rfl
  | filter where_ p order =>
    rw [Tail.text, Between.text]
    simp only [List.append_assoc]
    refine .keyword where_.before.filled where_.before.blank fun before alone => ?_
    apply Pattern.includes_oneOf (q := .word "WHERE") (by simp)
    rw [where_.keyword.word_covers (by decide) alone (where_.after.inWord_head _)]
    rfl
  | cross j source rest =>
    rw [Tail.text, List.append_assoc]
    rw [List.append_assoc (source.gap ++ source.text)]
    exact join j (source.inWord_head _)
  | on j source on_ p rest =>
    rw [Tail.text, List.append_assoc]
    rw [List.append_assoc (source.gap ++ source.text)]
    exact join j (source.inWord_head _)

theorem Source.ofScope?_on (source : Source) (on_ : Between "ON") (p : Predicate) (rest : Tail)
    (blank : ∀ c ∈ closing, Text.isBlank c = true) :
    JoinCondition.ofScope? (source.gap ++ source.text ++ (on_.text ++ (p.text ++ rest.text)) ++
      closing) = some ⟨source.text, p.text⟩ := by
  have written : source.gap ++ source.text ++ (on_.text ++ (p.text ++ rest.text)) ++ closing =
      source.gap ++ (source.text ++ (on_.before.text ++ (on_.keyword.text ++
        (on_.after.text ++ (p.text ++ (rest.text ++ closing)))))) := by
    simp only [Between.text, List.append_assoc]
  rw [written]
  exact ofScope?_sealed_on on_.keyword source.sealed source.firm.tight p.sealed p.firm.tight
    source.gap_blank on_.before.filled on_.before.blank on_.after.filled on_.after.blank
    (rest.ends blank)

theorem Source.ofScope?_cross (source : Source) (rest : Tail)
    (blank : ∀ c ∈ closing, Text.isBlank c = true) :
    JoinCondition.ofScope? (source.gap ++ source.text ++ rest.text ++ closing) = none := by
  have part : Sealed scopeWords (source.gap ++ source.text) :=
    source.sealed.blank_append source.gap_blank
  have order (o : Option OrderBy) : Sealed ["ON"] (orderText o) :=
    .of_neutral (neutral_orderText o (by decide) (by decide) (by decide))
  have join (j : JoinWords) {s : Text} (after : inWord s.head? = false) :
      JoinCondition.ofScope? (source.gap ++ source.text ++ (j.text ++ s)) = none := by
    have found := ofScope?_sealed_join part j.before.filled j.before.blank j.leads_text j.join after
    rw [JoinWords.text, List.append_assoc j.before.text]
    exact found
  cases rest with
  | done o =>
    exact ofScope?_of_sealed ((part.mono on_subset).append (order o) (inWord_head_orderText o))
      blank
  | filter where_ p o =>
    have body : Sealed ["ON"] (p.text ++ orderText o) :=
      (p.sealed.mono on_subset).append (order o) (inWord_head_orderText o)
    have clause : Sealed ["ON"] (where_.text ++ (p.text ++ orderText o)) :=
      where_.sealed_append (by decide) (by decide) (by decide) body
    exact ofScope?_of_sealed ((part.mono on_subset).append clause (where_.inWord_head _)) blank
  | cross j source' rest =>
    rw [Tail.text, List.append_assoc, List.append_assoc j.text]
    exact join j (by rw [List.append_assoc]; exact source'.inWord_head _)
  | on j source' on_ p rest =>
    rw [Tail.text, List.append_assoc, List.append_assoc j.text]
    exact join j (by rw [List.append_assoc]; exact source'.inWord_head _)

end Shape

section Yielding

variable {follows : Text → Prop} {s t : Text} {cs ds : List JoinCondition}

/-- The conditions of the joins from a place on, where `seen` is what stands before it. -/
def joinsFrom (seen s : Text) : List JoinCondition :=
  (joinKeyword.occurrencesFrom seen 0 s).filterMap fun found =>
    JoinCondition.ofScope? (withinEnclosing 0 found.after)

/-- The joins of a part tell the conditions, whatever stands before it and follows as it should. -/
def Yields (follows : Text → Prop) (s : Text) (cs : List JoinCondition) : Prop :=
  ∀ seen rest, follows rest → joinsFrom seen (s ++ rest) = cs ++ joinsFrom (s.reverse ++ seen) rest

def Apart (rest : Text) : Prop := inWord rest.head? = false

/-- Nothing but blanks is left up to the end, or to the parenthesis that closes. -/
def Enclosed (rest : Text) : Prop :=
  ∃ closing close, (∀ c ∈ closing, Text.isBlank c = true) ∧ AtEnd close ∧ rest = closing ++ close

theorem Enclosed.apart (h : Enclosed s) : Apart s := by
  obtain ⟨closing, close, blank, closes, rfl⟩ := h
  have mark : Text.isWord ')' = false := by decide
  apply inWord_head_append (inWord_head_of_marks (not_isWord_of_blank blank))
  rcases closes with rfl | ⟨t, rfl⟩
  · rfl
  · exact mark

theorem joinsFrom_marks (seen : Text) (marks : ∀ c ∈ s, Text.isWord c = false) (rest : Text) :
    joinsFrom seen (s ++ rest) = joinsFrom (s.reverse ++ seen) rest := by
  unfold joinsFrom
  rw [Pattern.occurrencesFrom_clear (starts_joinKeyword.clear_of_marks marks)]

theorem Yields.of_neutral (h : Neutral joinKeywords s) : Yields Apart s [] := by
  intro seen rest after
  unfold joinsFrom
  rw [Pattern.occurrencesFrom_clear (h.clear starts_joinKeyword after)]
  rfl

theorem Yields.within (h : Yields Apart s cs) : Yields Enclosed s cs :=
  fun seen rest enclosed => h seen rest enclosed.apart

theorem Yields.marks_append (marks : ∀ c ∈ s, Text.isWord c = false) (ht : Yields follows t ds) :
    Yields follows (s ++ t) ds := by
  intro seen rest after
  rw [List.append_assoc, joinsFrom_marks seen marks, ht _ rest after, List.reverse_append,
    List.append_assoc]

theorem Yields.append (hs : Yields Apart s cs) (ht : Yields follows t ds) (apart : Apart t)
    (sub : ∀ {rest}, follows rest → Apart rest) : Yields follows (s ++ t) (cs ++ ds) := by
  intro seen rest after
  rw [List.append_assoc, hs seen _ (inWord_head_append apart (sub after)), ht _ rest after,
    List.reverse_append, List.append_assoc, List.append_assoc]

theorem Yields.group (hs : Yields Enclosed s cs) (ht : Yields Apart t ds)
    (opening closing : Blanks) :
    Yields Apart ('(' :: (opening.text ++ (s ++ closing.text) ++ ')' :: t)) (cs ++ ds) := by
  have open_ : ∀ c ∈ '(' :: opening.text, Text.isWord c = false :=
    List.forall_mem_cons.2 ⟨by decide, not_isWord_of_blank opening.blank⟩
  have close : ∀ c ∈ closing.text ++ [')'], Text.isWord c = false :=
    List.forall_mem_append.2
      ⟨not_isWord_of_blank closing.blank, List.forall_mem_singleton.2 (by decide)⟩
  have inner : Yields Apart (s ++ ((closing.text ++ [')']) ++ t)) (cs ++ ds) := by
    intro seen rest after
    have enclosed : Enclosed (((closing.text ++ [')']) ++ t) ++ rest) :=
      ⟨closing.text, _, closing.blank, .inr ⟨t ++ rest, rfl⟩, by simp⟩
    rw [List.append_assoc, hs seen _ enclosed, ht.marks_append close _ rest after]
    simp only [List.reverse_append, List.append_assoc]
  have written : '(' :: (opening.text ++ (s ++ closing.text) ++ ')' :: t) =
      ('(' :: opening.text) ++ (s ++ ((closing.text ++ [')']) ++ t)) := by
    simp
  rw [written]
  exact inner.marks_append open_

theorem Yields.join {o : Option JoinCondition} (j : JoinWords) (h : Yields Enclosed s cs)
    (balanced : Balanced s) (apart : ∀ rest, Apart (s ++ rest))
    (scope : ∀ closing, (∀ c ∈ closing, Text.isBlank c = true) →
      JoinCondition.ofScope? (s ++ closing) = o) :
    Yields Enclosed (j.text ++ s) (o.toList ++ cs) := by
  intro seen rest within
  obtain ⟨closing, close, blank, closes, e⟩ := within
  have alone : inWord (j.before.text.reverse ++ seen).head? = false := by
    apply Pattern.inWord_head_blank
    · exact fun empty => j.before.filled (List.reverse_eq_nil_iff.1 empty)
    · exact fun c hc => j.before.blank c (List.mem_reverse.1 hc)
  have filled : j.leadsText ++ j.join.text ≠ [] :=
    List.append_ne_nil_of_right_ne_nil _ (j.join.filled (by decide))
  have enclosed : withinEnclosing 0 (s ++ rest) = s ++ closing := by
    rw [e, ← List.append_assoc]
    exact (balanced.append (unnested_blank blank).balanced).withinEnclosing_append closes
  have found : joinsFrom (j.before.text.reverse ++ seen)
      (j.leadsText ++ j.join.text ++ (s ++ rest)) =
        o.toList ++ joinsFrom ((j.leadsText ++ j.join.text).reverse ++
          (j.before.text.reverse ++ seen)) (s ++ rest) := by
    unfold joinsFrom
    rw [Pattern.occurrencesFrom_covered filled
      (joinKeyword_covers j.leads_text j.join alone (apart rest)), List.filterMap_cons, enclosed,
      scope closing blank]
    cases o <;> rfl
  rw [JoinWords.text, List.append_assoc, List.append_assoc j.before.text,
    joinsFrom_marks seen (not_isWord_of_blank j.before.blank), found,
    h _ rest ⟨closing, close, blank, closes, e⟩]
  simp only [List.reverse_append, List.append_assoc]

theorem Yields.source {x : Source} (h : Yields Apart x.text cs) :
    Yields Apart (x.gap ++ x.text) cs :=
  h.marks_append (not_isWord_of_blank x.gap_blank)

theorem Between.yields_append {w : Text} (b : Between w) (known : w ∈ reservedWords)
    (other : w ∉ joinKeywords) (h : Yields Enclosed s cs) : Yields Enclosed (b.text ++ s) cs := by
  have word : Yields Apart b.keyword.text [] :=
    .of_neutral (.keyword known b.keyword joinKeywords_subset other)
  rw [b.text_append]
  exact (word.append (h.marks_append (not_isWord_of_blank b.after.blank)) (b.after.inWord_head _)
    Enclosed.apart).marks_append (not_isWord_of_blank b.before.blank)

mutual

theorem Source.yields (x : Source) : Yields Apart x.text x.conditions := by
  have sub := joinKeywords_subset
  match x with
  | .table gap name alias_ =>
    exact .of_neutral ((name.neutral sub).append (neutral_aliasText alias_ sub (by decide))
      (inWord_head_aliasText alias_))
  | .derived gap opening s closing after alias_ =>
    have last : Yields Apart (after.text ++ alias_.text) [] :=
      .of_neutral ((alias_.neutral sub (by decide)).blank_append after.blank)
    have all := s.yields.group last opening closing
    rw [List.append_nil] at all
    exact all

theorem Predicate.yields (p : Predicate) : Yields Apart p.text p.conditions := by
  have sub := joinKeywords_subset
  match p with
  | .comparison c => exact .of_neutral (c.neutral sub)
  | .member left gap in_ after opening s closing =>
    have word : Neutral joinKeywords in_.text := .keyword (by decide) in_ sub (by decide)
    have front : Yields Apart (left.text ++ (gap.text ++ in_.text)) [] :=
      .of_neutral ((left.neutral sub).append (word.blank_append gap.blank) (gap.inWord_head _))
    have group := (s.yields.group (.of_neutral .nil) opening closing).marks_append
      (not_isWord_of_blank after.blank)
    rw [List.append_nil] at group
    exact front.append group (after.inWord_head_group _) id

theorem Tail.yields (t : Tail) : Yields Enclosed t.text t.conditions := by
  have order (o : Option OrderBy) : Yields Enclosed (orderText o) [] :=
    (Yields.of_neutral (neutral_orderText o joinKeywords_subset (by decide) (by decide))).within
  match t with
  | .done o => exact order o
  | .filter where_ p o =>
    have body := p.yields.append (order o) (inWord_head_orderText o) Enclosed.apart
    rw [List.append_nil] at body
    exact where_.yields_append (by decide) (by decide) body
  | .cross join source rest =>
    have scope := source.yields.source.append rest.yields rest.inWord_head Enclosed.apart
    exact scope.join join (source.balanced_written.append rest.balanced)
      (fun later => by rw [List.append_assoc]; exact source.inWord_head _)
      (fun closing blank => source.ofScope?_cross rest blank)
  | .on join source on_ p rest =>
    have body := p.yields.append rest.yields rest.inWord_head Enclosed.apart
    have on_yields := on_.yields_append (by decide) (by decide) body
    have scope := source.yields.source.append on_yields (on_.inWord_head _) Enclosed.apart
    have predicate : Balanced (on_.text ++ (p.text ++ rest.text)) :=
      (on_.unnested (by decide)).balanced.append (p.sealed.balanced.append rest.balanced)
    exact scope.join join (source.balanced_written.append predicate)
      (fun later => by rw [List.append_assoc]; exact source.inWord_head _)
      (fun closing blank => source.ofScope?_on on_ p rest blank)

theorem Select.yields (s : Select) : Yields Enclosed s.text s.conditions := by
  match s with
  | .mk opening source tail =>
    have words : Yields Apart opening.text [] :=
      .of_neutral (opening.neutral joinKeywords_subset (by decide) (by decide))
    have body := source.yields.source.append tail.yields tail.inWord_head Enclosed.apart
    exact words.append body (source.inWord_head _) Enclosed.apart

end

end Yielding

/-- The joins of a nested statement are listed once each, in the order of their JOIN words, with the
text of their own tables and predicates; a join without a predicate is not listed. -/
theorem Select.joinConditions_nested (s : Select) : joinConditions s.text = s.conditions := by
  have all := s.yields [] [] ⟨[], [], List.forall_mem_nil _, .inl rfl, rfl⟩
  rw [List.append_nil] at all
  have none (seen : Text) : joinsFrom seen [] = [] := rfl
  rw [none, List.append_nil] at all
  exact all

theorem left_mem_joinLeads : "LEFT".toList ∈ joinLeads := by decide

def rejoined : Select :=
  let none_ : Blanks := ⟨[], List.forall_mem_nil _⟩
  let space : Space := ⟨⟨[' '], List.forall_mem_singleton.2 rfl⟩, List.cons_ne_nil _ _⟩
  let a : Word :=
    ⟨['a'], List.cons_ne_nil _ _, List.forall_mem_singleton.2 rfl, by decide +kernel⟩
  let t : Word :=
    ⟨['t'], List.cons_ne_nil _ _, List.forall_mem_singleton.2 rfl, by decide +kernel⟩
  let opening : Opening := ⟨⟨"select", rfl⟩, space, a, space, ⟨"from", rfl⟩⟩
  let join (leads : List Lead) : JoinWords := ⟨space, leads, ⟨"join", rfl⟩⟩
  let on_ : Between "ON" := ⟨space, ⟨"on", rfl⟩, space⟩
  let left : Lead := ⟨"LEFT", left_mem_joinLeads, ⟨"Left", rfl⟩, space⟩
  let inner : Select := .mk opening (.table space t none)
    (.on (join [left]) (.table space t none) on_
      (.comparison ⟨⟨false, a, []⟩, none_, .equal, none_, ⟨false, a, []⟩⟩) (.done none))
  let derived : Source :=
    .derived space.toBlanks none_ inner space.toBlanks space.toBlanks ⟨none, t⟩
  .mk opening (.table space t none) (.on (join []) derived on_
    (.comparison ⟨⟨false, a, []⟩, space.toBlanks, .less, space.toBlanks, ⟨false, t, [a]⟩⟩)
    (.done none))

theorem Select.joinConditions_rejoined :
    joinConditions "select a from t join (select a from t Left join t on a=a ) t on a < t.a" =
      [⟨"(select a from t Left join t on a=a ) t", "a < t.a"⟩, ⟨"t", "a=a"⟩] :=
  rejoined.joinConditions_nested

end SqlReview.Query.Nested
