import SqlReview.Proofs.Query.Conjuncts
import SqlReview.Proofs.Query.JoinText
import SqlReview.Query.Ordering

/-!
The ORDER BY clause of any text. The first ORDER BY is taken, in parentheses or not; in parentheses
it has no end at the one that closes them, so its last item goes on with what stands after that.
-/
namespace SqlReview.Query

open Pattern (Stands Finds Absent IsFirst UpToFirst CutOut isSpelling)

def IsOrderBy (k : Text) : Prop := Pattern.IsPhrase "ORDER" "BY" k

def IsLimit (k : Text) : Prop := isSpelling "LIMIT" k = true

theorem finds_orderBy : Finds (.phrase "ORDER" "BY") IsOrderBy :=
  (finds_keywords_by (by decide)).2

theorem finds_limit : Finds (.word "LIMIT") IsLimit := (finds_keyword (by decide)).2

theorem level_orderBy : Level (.phrase "ORDER" "BY") :=
  level_phrase (Sql.capitals_of_reserved _ (by decide)) (Sql.capitals_of_reserved _ (by decide))

theorem orderItems_spec (query : Text) :
    (Absent IsOrderBy [] query [] ∧ orderItems query = []) ∨
      ∃ o clause rest, IsClause IsOrderBy IsLimit query o clause rest ∧
        orderItems query = trimmedPieces (Text.pieces ',' clause) := by
  unfold orderItems orderClause?
  rcases clause_spec finds_orderBy finds_limit query with ⟨none, absent⟩ | ⟨o, rest, found, clause⟩
  · rw [none]
    exact .inl ⟨absent, rfl⟩
  · rw [found]
    exact .inr ⟨o, _, rest, clause, rfl⟩

section Enclosed

variable {p : Pattern} {K : Text → Prop} {query left scope outer clause rest : Text}
  {o : Occurrence}

theorem firstIn_of_isFirst (first : IsFirst K [] query [] o)
    (outside : depthAfter 0 o.before = some 0) : FirstIn K [] query [] o where
  found := ⟨first.text, outside, first.stands⟩
  first o' found := first.first o'.before o'.covered o'.after found.text found.stands

/-- What stands first in a text is outside parentheses, or the text goes on to one that closes what
was opened before it. -/
theorem outside_or_enclosed (balanced : Balanced query) (first : IsFirst K [] query [] o)
    (unnested : Unnested o.covered) :
    FirstIn K [] query [] o ∨ ∃ scope outer, IsScope o.after scope (')' :: outer) := by
  have whole := balanced 0
  rw [first.text, depthAfter_append] at whole
  obtain ⟨d, before, after⟩ := Option.bind_eq_some_iff.1 whole
  rw [depthAfter_append, unnested.balanced, Option.bind_some] at after
  cases d with
  | zero => exact .inl (firstIn_of_isFirst first before)
  | succ d =>
    obtain ⟨rest, scope⟩ := exists_isScope o.after
    rcases scope.closes with none | ⟨⟨outer, closing⟩, _⟩
    · -- a text that closes nothing else leaves the parenthesis open
      obtain ⟨e, inside⟩ := Option.isSome_iff_exists.1 scope.nested
      have text := scope.text
      rw [none, List.append_nil] at text
      rw [← text] at inside
      have deep := depthAfter_add inside (d + 1)
      rw [Nat.zero_add, after] at deep
      exact absurd (Option.some.inj deep) (by omega)
    · rw [closing] at scope
      exact .inr ⟨_, outer, scope⟩

theorem upToFirst_enclosed (finds : Finds p K) (free : ∀ k, K k → ')' ∉ k)
    (upTo : UpToFirst K left (scope ++ ')' :: outer) [] clause rest) :
    (∃ k, IsFirst K left scope (')' :: outer) k ∧ clause = k.before) ∨
      Absent K left scope (')' :: outer) ∧ ∃ more, clause = scope ++ ')' :: more ∧
        more <+: outer := by
  have inside {x k y : Text} (e : scope = x ++ (k ++ y)) :
      scope ++ ')' :: outer = x ++ (k ++ (y ++ ')' :: outer)) := by
    rw [e]
    simp
  cases upTo with
  | @found o first =>
    have kind := first.stands.kind
    rcases Pattern.exists_side_of_mark (free _ kind) (finds.ne_nil kind) first.text with
      ⟨y, text, after⟩ | ⟨x, before, tail⟩
    · refine .inl ⟨⟨o.before, o.covered, y⟩, ⟨text, ?_, fun x k y' e stands => ?_⟩, rfl⟩
      · have stands := first.stands
        rwa [List.append_nil, after] at stands
      · exact first.first x k _ (inside e) (by rwa [List.append_nil])
    · refine .inr ⟨fun x' k y e stands => ?_, x, before, o.covered ++ o.after, tail.symm⟩
      have late := first.first x' k _ (inside e) (by rwa [List.append_nil])
      rw [before, e] at late
      simp only [List.length_append, List.length_cons] at late
      omega
  | whole absent =>
    refine .inr ⟨fun x k y e stands => ?_, outer, rfl, List.prefix_rfl⟩
    exact absent x k _ (inside e) (by rwa [List.append_nil])

/-- The items on both sides of a parenthesis, of which the last and the first become one. -/
theorem exists_items (scope more : Text) : ∃ front last first others,
    Text.pieces ',' scope = front ++ [last] ∧ Text.pieces ',' more = first :: others ∧
      trimmedPieces (Text.pieces ',' (scope ++ ')' :: more)) =
        trimmedPieces front ++ Text.trim (last ++ ')' :: first) :: trimmedPieces others := by
  obtain ⟨front, last, before⟩ :=
    (List.eq_nil_or_concat (Text.pieces ',' scope)).resolve_left (Text.cut_ne_nil _ _)
  cases after : Text.pieces ',' more with
  | nil => exact absurd after (Text.cut_ne_nil _ _)
  | cons first others =>
    rw [List.concat_eq_append] at before
    have closing : Text.pieces ',' (')' :: more) = (')' :: first) :: others := by
      unfold Text.pieces at after ⊢
      rw [Text.cut, after]
      rfl
    have kept : (!(Text.trim (last ++ ')' :: first)).isEmpty) = true := by
      have inside : ')' ∈ Text.trim (last ++ ')' :: first) :=
        Text.mem_trim (List.mem_append_right _ List.mem_cons_self) (by decide)
      rw [Bool.not_eq_true', List.isEmpty_eq_false_iff]
      exact List.ne_nil_of_mem inside
    refine ⟨front, last, first, others, before, rfl, ?_⟩
    rw [Text.pieces, Text.cut_append before closing, trimmedPieces_append]
    unfold trimmedPieces
    rw [List.map_cons, List.filter_cons, if_pos kept]

end Enclosed

end SqlReview.Query
