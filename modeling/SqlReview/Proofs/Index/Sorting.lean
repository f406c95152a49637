import SqlReview.Proofs.Index.Terminator
import SqlReview.Proofs.Query.SortScope

/-!
Indexes for sort items. A direction is the last word of an item, so the column is the rest of it,
whatever that is; the item of a clause that goes on past a parenthesis has the parenthesis in it,
and so has the column of an index on every table.
-/
namespace SqlReview.Index

open Query
open Pattern (Absent IsFirst isSpelling)

section Column

variable {word item column : Text}

def directions : List Text := (["ASC", "DESC"] : List String).map String.toList

/-- A direction is the last word of the item, and the column is what stands before the blanks in
front of it. -/
def IsDirected (column item : Text) : Prop :=
  ∃ gap run, item = column ++ (gap ++ run) ∧ gap ≠ [] ∧ (∀ c ∈ gap, Text.isBlank c = true) ∧
    (∃ word ∈ directions, isSpelling word run = true) ∧ Text.EndsSolid column

theorem capital_of_direction (h : word ∈ directions) : ∀ c ∈ word, Text.isCapital c = true :=
  (Sql.capitals_of_reserved word ((by decide : directions ⊆ Sql.reservedWords) h)).2

theorem isDirected_of_stripLast? (known : word ∈ directions)
    (h : stripLast? word item = some column) : IsDirected column item := by
  simp only [stripLast?, Option.ite_none_right_eq_some] at h
  obtain ⟨⟨short, spelled, ended⟩, e⟩ := h
  obtain rfl := Option.some.inj e
  obtain ⟨gap, kept, blank, solid⟩ :=
    Text.exists_trimRight (item.take (item.length - word.length))
  have run := Pattern.isSpelling_take (capital_of_direction known) spelled
  rw [List.take_of_length_le (by rw [List.length_drop]; omega)] at run
  refine ⟨gap, _, ?_, ?_, blank, ⟨word, known, run⟩, solid⟩
  · rw [← List.append_assoc, ← kept, List.take_append_drop]
  · -- the text before the direction ends in a blank
    rintro rfl
    rw [kept, List.append_nil, Option.any_eq_true] at ended
    obtain ⟨c, last, mark⟩ := ended
    rw [solid c last] at mark
    cases mark

theorem sortColumn_spec (item : Text) :
    sortColumn item = item ∨ IsDirected (sortColumn item) item := by
  unfold sortColumn
  cases ascending : stripLast? "ASC" item with
  | some column => exact .inr (isDirected_of_stripLast? (by decide) ascending)
  | none =>
    cases descending : stripLast? "DESC" item with
    | some column => exact .inr (isDirected_of_stripLast? (by decide) descending)
    | none => exact .inl rfl

theorem mem_sortColumn {c : Char} (h : c ∈ item) (solid : Text.isBlank c = false)
    (mark : Text.isWord c = false) : c ∈ sortColumn item := by
  rcases sortColumn_spec item with same | ⟨gap, run, text, _, blank, ⟨word, known, spelled⟩, _⟩
  · rwa [same]
  · rw [text, List.mem_append, List.mem_append] at h
    rcases h with h | h | h
    · exact h
    · rw [blank c h] at solid
      cases solid
    · rw [Pattern.isWord_of_isSpelling (capital_of_direction known) spelled c h] at mark
      cases mark

end Column

/-- The last item before a parenthesis and the first after it are one, and what that leaves for a
column is the column of an index on every table. -/
def RunsPast (query scope more : Text) : Prop :=
  ∃ front last first others, Text.pieces ',' scope = front ++ [last] ∧
    Text.pieces ',' more = first :: others ∧
    orderItems query =
      trimmedPieces front ++ Text.trim (last ++ ')' :: first) :: trimmedPieces others ∧
    ∃ column, column = sortColumn (Text.trim (last ++ ')' :: first)) ∧ ')' ∈ column ∧
      ∀ table ∈ (Facts.extract query).tables,
        createStatement (nameOf (table, column)) table column ∈
          (Recommendations.ofFacts (Facts.extract query)).createStatements

theorem mem_createStatements_of_orderItems {query item table : Text}
    (listed : item ∈ orderItems query) (known : table ∈ (Facts.extract query).tables) :
    createStatement (nameOf (table, sortColumn item)) table (sortColumn item) ∈
      (Recommendations.ofFacts (Facts.extract query)).createStatements := by
  have pair : (table, sortColumn item) ∈ candidatePairs (Facts.extract query) :=
    List.mem_append_right _ (List.mem_flatMap.2 ⟨item, listed, List.mem_map.2 ⟨table, known, rfl⟩⟩)
  rw [Recommendations.createStatements_ofFacts]
  exact List.mem_map_of_mem (mem_pairs_iff.2 pair)

theorem runsPast_of_clause {query scope more : Text}
    (items : orderItems query = trimmedPieces (Text.pieces ',' (scope ++ ')' :: more))) :
    RunsPast query scope more := by
  obtain ⟨front, last, first, others, before, after, cut⟩ := exists_items scope more
  rw [cut] at items
  refine ⟨front, last, first, others, before, after, items, _, rfl, ?_, fun table known => ?_⟩
  · apply mem_sortColumn _ (by decide) (by decide)
    exact Text.mem_trim (List.mem_append_right _ List.mem_cons_self) (by decide)
  · apply mem_createStatements_of_orderItems _ known
    rw [items]
    exact List.mem_append_right _ List.mem_cons_self

/-- The sort items of a query are those of its first ORDER BY. If that stands outside parentheses,
it is the first to do so. If not, its clause ends in front of the parenthesis that closes those
around it just if a LIMIT does; or else it goes on, and one of its items has that parenthesis in
it. -/
theorem orderItems_scoped {query : Text} (balanced : Balanced query) :
    (Absent IsOrderBy [] query [] ∧ orderItems query = []) ∨
      ∃ o clause rest, IsClause IsOrderBy IsLimit query o clause rest ∧
        orderItems query = trimmedPieces (Text.pieces ',' clause) ∧
        (FirstIn IsOrderBy [] query [] o ∨
          ∃ scope outer, IsScope o.after scope (')' :: outer) ∧
            ((∃ limit, IsFirst IsLimit (o.before ++ o.covered) scope (')' :: outer) limit ∧
                clause = limit.before) ∨
              Absent IsLimit (o.before ++ o.covered) scope (')' :: outer) ∧
                ∃ more, clause = scope ++ ')' :: more ∧ more <+: outer ∧
                  RunsPast query scope more)) := by
  rcases orderItems_spec query with none | ⟨o, clause, rest, isClause, items⟩
  · exact .inl none
  · refine .inr ⟨o, clause, rest, isClause, items, ?_⟩
    have unnested := unnested_of_finds finds_orderBy level_orderBy isClause.opening.stands.kind
    rcases outside_or_enclosed balanced isClause.opening unnested with
      outside | ⟨scope, outer, enclosed⟩
    · exact .inl outside
    · refine .inr ⟨scope, outer, enclosed, ?_⟩
      have free (k : Text) (kind : IsLimit k) : ')' ∉ k := fun h =>
        absurd (Pattern.isWord_of_isSpelling
          (Sql.capitals_of_reserved "LIMIT" (by decide)).2 kind ')' h) (by decide)
      have ending := isClause.ending
      rw [enclosed.text] at ending
      rcases upToFirst_enclosed finds_limit free ending with limited | ⟨absent, more, text, sub⟩
      · exact .inl limited
      · rw [text] at items
        exact .inr ⟨absent, more, text, sub, runsPast_of_clause items⟩

def windowed : Text := "SELECT a, ROW_NUMBER() OVER (ORDER BY b) FROM t"

theorem not_foundIn_windowed : ∀ o, ¬ FoundIn IsOrderBy [] windowed [] o :=
  (firstOutside?_spec finds_orderBy level_orderBy (by decide)).1 (by decide +kernel)

theorem orderItems_scoped_windowed : Balanced windowed ∧ ∃ o, IsFirst IsOrderBy [] windowed [] o ∧
    ∃ scope outer, IsScope o.after scope (')' :: outer) := by
  have balanced : Balanced windowed := balanced_of_depthAfter (by decide)
  refine ⟨balanced, ?_⟩
  rcases orderItems_scoped balanced with ⟨_, none⟩ | ⟨o, _, _, isClause, _, outside | enclosed⟩
  · exact absurd none (by decide)
  · exact absurd outside.found (not_foundIn_windowed o)
  · obtain ⟨scope, outer, within, _⟩ := enclosed
    exact ⟨o, isClause.opening, scope, outer, within⟩

/-- What sorts a window is taken for what sorts the query, together with the text after it. -/
theorem window_order_taken : Balanced windowed ∧
    (∀ o, ¬ FoundIn IsOrderBy [] windowed [] o) ∧
    (Facts.extract windowed).orderItems = ["b) FROM t".toList] ∧
    (Recommendations.ofFacts (Facts.extract windowed)).createStatements =
      ["CREATE INDEX idx_t_b) FROM t ON t (b) FROM t);".toList] ∧
    ¬ ∀ query, Balanced query → (∀ o, ¬ FoundIn IsOrderBy [] query [] o) →
      orderItems query = [] := by
  have balanced : Balanced windowed := balanced_of_depthAfter (by decide)
  have items : orderItems windowed = ["b) FROM t".toList] := by decide
  refine ⟨balanced, not_foundIn_windowed, items, by decide +kernel, ?_⟩
  intro none
  rw [none windowed balanced not_foundIn_windowed] at items
  cases items

end SqlReview.Index
