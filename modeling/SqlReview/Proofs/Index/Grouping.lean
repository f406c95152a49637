import Mathlib.Data.Finset.Card
import Mathlib.Data.List.Induction
import SqlReview.Index.Recommendation
import SqlReview.Proofs.Text.Entries

/-!
What is recommended for a query, told by its candidates alone: of those with one table and column
the first is kept, and the kept ones are listed table by table. Facts that only repeat themselves
add nothing.
-/
namespace SqlReview.Index

open Query

section Firsts

variable {α κ : Type} [DecidableEq κ] {key : α → κ} {as as' bs bs' : List α}

/-- The items that have a key no item before them has. -/
def firsts (key : α → κ) : List α → List α
  | [] => []
  | a :: as => a :: (firsts key as).filter fun b => key b ≠ key a

theorem mem_map_firsts {k : κ} : k ∈ (firsts key as).map key ↔ k ∈ as.map key := by
  induction as with
  | nil => rfl
  | cons a as ih =>
    simp only [List.mem_map] at ih
    simp only [firsts, List.map_cons, List.mem_cons, List.mem_map, List.mem_filter,
      decide_eq_true_eq]
    by_cases h : k = key a
    · exact iff_of_true (.inl h) (.inl h)
    · rw [or_iff_right h, or_iff_right h, ← ih]
      constructor
      · rintro ⟨b, ⟨hb, _⟩, e⟩
        exact ⟨b, hb, e⟩
      · rintro ⟨b, hb, e⟩
        exact ⟨b, ⟨hb, e ▸ h⟩, e⟩

theorem firsts_subset : firsts key as ⊆ as := by
  induction as with
  | nil => exact List.Subset.refl _
  | cons a as ih =>
    rw [firsts]
    exact List.cons_subset_cons a fun b hb => ih (List.mem_of_mem_filter hb)

theorem nodup_map_firsts (key : α → κ) (as : List α) : ((firsts key as).map key).Nodup := by
  induction as with
  | nil => exact List.nodup_nil
  | cons a as ih =>
    rw [firsts, List.map_cons, List.nodup_cons]
    constructor
    · intro h
      obtain ⟨b, hb, e⟩ := List.mem_map.1 h
      exact of_decide_eq_true (List.mem_filter.1 hb).2 e
    · exact ih.sublist (List.filter_sublist.map key)

theorem firsts_append (as bs : List α) : firsts key (as ++ bs) =
    firsts key as ++ (firsts key bs).filter fun b => key b ∉ as.map key := by
  induction as with
  | nil => simp [firsts]
  | cons a as ih =>
    simp only [List.cons_append, firsts, ih, List.filter_append, List.filter_filter, List.map_cons,
      List.mem_cons, not_or, Bool.decide_and]

theorem firsts_append_singleton (as : List α) (a : α) : firsts key (as ++ [a]) =
    if key a ∈ as.map key then firsts key as else firsts key as ++ [a] := by
  have one : firsts key [a] = [a] := rfl
  rw [firsts_append, one]
  split <;> rename_i h
  · rw [List.filter_eq_nil_iff.2, List.append_nil]
    intro b hb
    obtain rfl := List.mem_singleton.1 hb
    simpa using h
  · rw [List.filter_eq_self.2]
    intro b hb
    obtain rfl := List.mem_singleton.1 hb
    exact decide_eq_true h

theorem firsts_append_congr (ha : firsts key as = firsts key as')
    (hb : firsts key bs = firsts key bs') : firsts key (as ++ bs) = firsts key (as' ++ bs') := by
  have keys (k : κ) : k ∈ as.map key ↔ k ∈ as'.map key := by
    rw [← mem_map_firsts, ha, mem_map_firsts]
  simp only [firsts_append, ha, hb, keys]

theorem firsts_flatMap_congr {β : Type} {f g : β → List α} (xs : List β)
    (h : ∀ x ∈ xs, firsts key (f x) = firsts key (g x)) :
    firsts key (xs.flatMap f) = firsts key (xs.flatMap g) := by
  induction xs with
  | nil => rfl
  | cons x xs ih =>
    obtain ⟨hx, h⟩ := List.forall_mem_cons.1 h
    rw [List.flatMap_cons, List.flatMap_cons]
    exact firsts_append_congr hx (ih h)

theorem firsts_append_of_subset (h : bs ⊆ as) : firsts key (as ++ bs) = firsts key as := by
  rw [firsts_append, List.filter_eq_nil_iff.2, List.append_nil]
  intro b hb
  have known : key b ∈ as.map key :=
    List.map_subset key h (mem_map_firsts.1 (List.mem_map_of_mem hb))
  simpa using known

end Firsts

section Keys

variable {α : Type} {key : Text} {value : α} {entries : List (Text × α)}

theorem putFirst_of_mem (h : key ∈ entries.map Prod.fst) :
    putFirst key value entries = entries := by
  induction entries with
  | nil => cases h
  | cons entry entries ih =>
    rw [putFirst]
    split
    · rfl
    · rename_i other
      rw [List.map_cons, List.mem_cons] at h
      rw [ih (h.resolve_left fun e => other e.symm)]

theorem putFirst_of_not_mem (h : key ∉ entries.map Prod.fst) :
    putFirst key value entries = entries ++ [(key, value)] := by
  induction entries with
  | nil => rfl
  | cons entry entries ih =>
    rw [List.map_cons, List.mem_cons, not_or] at h
    rw [putFirst, if_neg (Ne.symm h.1), ih h.2]
    rfl

end Keys

namespace Candidate

def pair (c : Candidate) : Text × Text := (c.table, c.column)

/-- The table, the name of the index and the index itself that a candidate stands for. -/
def entry (c : Candidate) : Text × Text × Recommendation :=
  let name : Text := "idx_" ++ c.table ++ "_" ++ c.column
  (c.table, name,
    { columns := [c.column]
      reason := c.reason
      createStatement := "CREATE INDEX " ++ name ++ " ON " ++ c.table ++ " (" ++ c.column ++ ");" })

end Candidate

/-- Each table has the column of every condition that names one, then both sides of every equality
of a join are taken, then each table has every sort item without its direction. -/
def stream (facts : Facts) : List Candidate :=
  (facts.whereConditions.flatMap fun condition =>
      (conditionColumn? condition).toList.flatMap fun column =>
        facts.tables.map fun table => ⟨table, column, "Used in WHERE condition: " ++ condition⟩) ++
    (facts.joinConditions.flatMap fun join =>
      (joinSides? join.condition).toList.flatMap fun sides =>
        [sides.1, sides.2].map fun side =>
          ⟨side.1, side.2, "Used in JOIN condition: " ++ join.condition⟩) ++
    facts.orderItems.flatMap fun item =>
      facts.tables.map fun table => ⟨table, sortColumn item, "Used in ORDER BY clause"⟩

theorem candidates_eq_stream (facts : Facts) : candidates facts = stream facts := by
  have conditions (condition : Text) : conditionCandidates facts.tables condition =
      (conditionColumn? condition).toList.flatMap fun column =>
        facts.tables.map fun table =>
          ⟨table, column, "Used in WHERE condition: " ++ condition⟩ := by
    unfold conditionCandidates
    cases conditionColumn? condition with
    | none => rfl
    | some column => exact (List.append_nil _).symm
  have joins (join : JoinCondition) : joinCandidates join =
      (joinSides? join.condition).toList.flatMap fun sides => [sides.1, sides.2].map fun side =>
        ⟨side.1, side.2, "Used in JOIN condition: " ++ join.condition⟩ := by
    unfold joinCandidates
    cases joinSides? join.condition <;> rfl
  have whole : conditionCandidates facts.tables = _ := funext conditions
  rw [candidates, stream, whole, funext joins]
  rfl

def indexesOf (cs : List Candidate) (table : Text) : TableIndexes :=
  ((firsts Candidate.pair cs).filter fun c => c.table = table).map fun c => c.entry.2

def grouped (cs : List Candidate) : List (Text × TableIndexes) :=
  (firsts Candidate.table cs).map fun c => (c.table, indexesOf cs c.table)

section Step

variable {cs : List Candidate} {c : Candidate} {table : Text}

theorem entry_inj {c d : Candidate} (same : c.table = d.table)
    (h : c.entry.2.1 = d.entry.2.1) : c.pair = d.pair := by
  have columns : c.column = d.column := by
    unfold Candidate.entry at h
    simp only [same] at h
    exact List.append_cancel_left h
  unfold Candidate.pair
  rw [same, columns]

theorem mem_names_iff : c.entry.2.1 ∈ (indexesOf cs c.table).map Prod.fst ↔
    c.pair ∈ cs.map Candidate.pair := by
  have kept : c.pair ∈ (firsts Candidate.pair cs).map Candidate.pair ↔ _ := mem_map_firsts
  rw [← kept]
  simp only [indexesOf, List.map_map, List.mem_map, List.mem_filter, decide_eq_true_eq,
    Function.comp_apply]
  constructor
  · rintro ⟨d, ⟨hd, same⟩, e⟩
    exact ⟨d, hd, entry_inj same e⟩
  · rintro ⟨d, hd, e⟩
    obtain ⟨tables, columns⟩ := Prod.mk.inj e
    refine ⟨d, ⟨hd, tables⟩, ?_⟩
    simp only [Candidate.entry, tables, columns]

theorem nodup_names (cs : List Candidate) (table : Text) :
    ((indexesOf cs table).map Prod.fst).Nodup := by
  have distinct := nodup_map_firsts Candidate.pair cs
  unfold indexesOf
  rw [List.map_map]
  refine List.Nodup.map_on ?_ ((List.Nodup.of_map _ distinct).filter _)
  intro d hd d' hd' e
  rw [List.mem_filter, decide_eq_true_eq] at hd hd'
  exact List.inj_on_of_nodup_map distinct hd.1 hd'.1 (entry_inj (hd.2.trans hd'.2.symm) e)

theorem indexesOf_append_other (h : c.table ≠ table) :
    indexesOf (cs ++ [c]) table = indexesOf cs table := by
  unfold indexesOf
  rw [firsts_append_singleton]
  split
  · rfl
  · have none : [c].filter (fun d => d.table = table) = [] := by simpa using h
    rw [List.filter_append, none, List.append_nil]

theorem indexesOf_append_same : indexesOf (cs ++ [c]) c.table =
    putFirst c.entry.2.1 c.entry.2.2 (indexesOf cs c.table) := by
  by_cases h : c.pair ∈ cs.map Candidate.pair
  · rw [putFirst_of_mem (mem_names_iff.2 h), indexesOf, firsts_append_singleton, if_pos h,
      indexesOf]
  · have one : [c].filter (fun d => d.table = c.table) = [c] := by simp
    rw [putFirst_of_not_mem (mt mem_names_iff.1 h), indexesOf, firsts_append_singleton, if_neg h,
      List.filter_append, one, List.map_append, indexesOf]
    rfl

theorem indexesOf_of_no_table (h : table ∉ cs.map Candidate.table) : indexesOf cs table = [] := by
  unfold indexesOf
  rw [List.filter_eq_nil_iff.2, List.map_nil]
  intro d hd same
  apply h
  rw [← of_decide_eq_true same]
  exact List.mem_map_of_mem (firsts_subset hd)

theorem insertInto_of_not_mem {groups : List (Text × TableIndexes)}
    (h : c.table ∉ groups.map Prod.fst) :
    Recommendations.insertInto c groups = groups ++ [(c.table, [c.entry.2])] := by
  induction groups with
  | nil => rfl
  | cons group groups ih =>
    rw [List.map_cons, List.mem_cons, not_or] at h
    rw [Recommendations.insertInto, if_neg (Ne.symm h.1), ih h.2]
    rfl

theorem insertInto_of_mem {groups : List (Text × TableIndexes)}
    (distinct : (groups.map Prod.fst).Nodup) (h : c.table ∈ groups.map Prod.fst) :
    Recommendations.insertInto c groups = groups.map fun group =>
      (group.1, if group.1 = c.table then putFirst c.entry.2.1 c.entry.2.2 group.2
        else group.2) := by
  induction groups with
  | nil => cases h
  | cons group groups ih =>
    obtain ⟨table, indexes⟩ := group
    rw [List.map_cons, List.nodup_cons] at distinct
    rw [Recommendations.insertInto, List.map_cons]
    by_cases here : table = c.table
    · -- no later group is that of the same table
      have later : ∀ group ∈ groups, (group.1,
          if group.1 = c.table then putFirst c.entry.2.1 c.entry.2.2 group.2 else group.2) =
          group := by
        intro group hg
        have other : group.1 ≠ c.table := by
          intro e
          have known : group.1 ∈ groups.map Prod.fst := List.mem_map_of_mem hg
          exact distinct.1 (here ▸ e ▸ known)
        rw [if_neg other]
      rw [if_pos here, if_pos here, List.map_congr_left later, List.map_id']
      rfl
    · rw [List.map_cons, List.mem_cons, or_iff_right (Ne.symm here)] at h
      rw [if_neg here, if_neg here, ih distinct.2 h]

theorem tables_grouped (cs : List Candidate) :
    (grouped cs).map Prod.fst = (firsts Candidate.table cs).map Candidate.table := by
  unfold grouped
  rw [List.map_map]
  rfl

theorem nodup_tables (cs : List Candidate) : ((grouped cs).map Prod.fst).Nodup := by
  rw [tables_grouped]
  exact nodup_map_firsts Candidate.table cs

/-- One more candidate makes an index where it is the first, and nothing else. -/
theorem insertInto_grouped (cs : List Candidate) (c : Candidate) :
    Recommendations.insertInto c (grouped cs) = grouped (cs ++ [c]) := by
  have known : c.table ∈ (grouped cs).map Prod.fst ↔ c.table ∈ cs.map Candidate.table := by
    rw [tables_grouped]
    exact mem_map_firsts
  by_cases h : c.table ∈ cs.map Candidate.table
  · rw [insertInto_of_mem (nodup_tables cs) (known.2 h), grouped, grouped, firsts_append_singleton,
      if_pos h, List.map_map]
    apply List.map_congr_left
    intro lead _
    simp only [Function.comp_apply]
    by_cases here : lead.table = c.table
    · rw [if_pos here, here, indexesOf_append_same]
    · rw [if_neg here, indexesOf_append_other (Ne.symm here)]
  · have others : ∀ lead ∈ firsts Candidate.table cs, lead.table ≠ c.table := by
      intro lead hl e
      exact h (e ▸ mem_map_firsts.1 (List.mem_map_of_mem hl))
    rw [insertInto_of_not_mem (mt known.1 h), grouped, grouped, firsts_append_singleton, if_neg h,
      List.map_append, List.map_singleton, indexesOf_append_same, indexesOf_of_no_table h]
    congr 1
    apply List.map_congr_left
    intro lead hl
    rw [indexesOf_append_other (Ne.symm (others lead hl))]

theorem foldl_insertFirst (cs : List Candidate) :
    cs.foldl Recommendations.insertFirst .empty = ⟨grouped cs⟩ := by
  induction cs using List.reverseRecOn with
  | nil => rfl
  | append_singleton cs c ih =>
    rw [List.foldl_concat, ih, Recommendations.insertFirst, insertInto_grouped]

end Step

section Listing

variable {cs : List Candidate} {table index : Text} {rec : Recommendation}

theorem ofFacts_eq (facts : Facts) : Recommendations.ofFacts facts = ⟨grouped (stream facts)⟩ := by
  rw [Recommendations.ofFacts, foldl_insertFirst, candidates_eq_stream]

theorem toList_grouped (cs : List Candidate) : Recommendations.toList ⟨grouped cs⟩ =
    (firsts Candidate.table cs).flatMap fun lead =>
      ((firsts Candidate.pair cs).filter fun c => c.table = lead.table).map Candidate.entry := by
  unfold Recommendations.toList grouped
  rw [List.flatMap_map]
  apply List.flatMap_congr
  intro lead _
  simp only [indexesOf, List.map_map]
  apply List.map_congr_left
  intro c hc
  have same := of_decide_eq_true (List.mem_filter.1 hc).2
  simp only [Function.comp_apply, Candidate.entry, same]

theorem perm_flatMap_filter {α κ : Type} [DecidableEq κ] {key : α → κ} {ks : List κ}
    (distinct : ks.Nodup) {as : List α} (covers : ∀ a ∈ as, key a ∈ ks) :
    (ks.flatMap fun k => as.filter fun a => key a = k).Perm as := by
  induction ks generalizing as with
  | nil =>
    rw [List.eq_nil_iff_forall_not_mem.2 fun a ha => List.not_mem_nil (covers a ha)]
    exact List.Perm.refl _
  | cons k ks ih =>
    obtain ⟨fresh, distinct⟩ := List.nodup_cons.1 distinct
    have others : ∀ a ∈ as.filter (fun a => !decide (key a = k)), key a ∈ ks := by
      intro a ha
      obtain ⟨ha, other⟩ := List.mem_filter.1 ha
      rw [Bool.not_eq_true', decide_eq_false_iff_not] at other
      exact List.mem_of_ne_of_mem other (covers a ha)
    have same : (ks.flatMap fun k => as.filter fun a => key a = k) =
        ks.flatMap fun j => (as.filter fun a => !decide (key a = k)).filter fun a => key a = j := by
      apply List.flatMap_congr
      intro j hj
      rw [List.filter_filter]
      apply List.filter_congr
      intro a _
      have apart : j ≠ k := fun e => fresh (e ▸ hj)
      grind
    rw [List.flatMap_cons, same]
    exact ((ih distinct others).append_left _).trans (List.filter_append_perm _ as)

theorem perm_toList_grouped (cs : List Candidate) :
    (Recommendations.toList ⟨grouped cs⟩).Perm
      ((firsts Candidate.pair cs).map Candidate.entry) := by
  have covers : ∀ c ∈ firsts Candidate.pair cs,
      c.table ∈ (firsts Candidate.table cs).map Candidate.table :=
    fun c hc => mem_map_firsts.2 (List.mem_map_of_mem (firsts_subset hc))
  have perm := perm_flatMap_filter (nodup_map_firsts Candidate.table cs) covers
  rw [List.flatMap_map] at perm
  rw [toList_grouped, ← List.map_flatMap]
  exact perm.map Candidate.entry

theorem length_toList (r : Recommendations) : r.toList.length = r.size := by
  obtain ⟨groups⟩ := r
  unfold Recommendations.toList Recommendations.size
  induction groups with
  | nil => rfl
  | cons group groups ih =>
    rw [List.flatMap_cons, List.length_append, List.length_map, ih, List.foldr_cons]

theorem get?_eq_some_iff (cs : List Candidate) :
    Recommendations.get? ⟨grouped cs⟩ table index = some rec ↔
      (table, index, rec) ∈ Recommendations.toList ⟨grouped cs⟩ := by
  have names : ∀ group ∈ grouped cs, (group.2.map Prod.fst).Nodup := by
    intro group hg
    obtain ⟨lead, _, rfl⟩ := List.mem_map.1 hg
    exact nodup_names cs lead.table
  unfold Recommendations.get? Recommendations.forTable? Recommendations.toList
  simp only [Option.bind_eq_some_iff, find?_key_eq_some_iff (nodup_tables cs), List.mem_flatMap,
    List.mem_map]
  constructor
  · rintro ⟨indexes, hg, found⟩
    exact ⟨_, hg, _, (find?_key_eq_some_iff (names _ hg)).1 found, rfl⟩
  · rintro ⟨⟨t, indexes⟩, hg, ⟨i, r⟩, hi, e⟩
    cases e
    exact ⟨indexes, hg, (find?_key_eq_some_iff (names _ hg)).2 hi⟩

end Listing

section Repeats

/-- The second list is the first with one of its elements once more, further back. -/
def Repeats {α : Type} (xs ys : List α) : Prop :=
  ∃ front back, ∃ x ∈ front, xs = front ++ back ∧ ys = front ++ x :: back

inductive RepeatsIn (facts : Facts) : Facts → Prop
  | tables {ts : List Text} (h : Repeats facts.tables ts) :
    RepeatsIn facts { facts with tables := ts }
  | columns {cs : List Text} (h : Repeats facts.columns cs) :
    RepeatsIn facts { facts with columns := cs }
  | conditions {cs : List Text} (h : Repeats facts.whereConditions cs) :
    RepeatsIn facts { facts with whereConditions := cs }
  | joins {js : List JoinCondition} (h : Repeats facts.joinConditions js) :
    RepeatsIn facts { facts with joinConditions := js }
  | order {items : List Text} (h : Repeats facts.orderItems items) :
    RepeatsIn facts { facts with orderItems := items }

variable {α β κ : Type} [DecidableEq κ] {key : β → κ} {xs ys : List α}

theorem Repeats.firsts_flatMap (h : Repeats xs ys) (f : α → List β) :
    firsts key (ys.flatMap f) = firsts key (xs.flatMap f) := by
  obtain ⟨front, back, x, hx, rfl, rfl⟩ := h
  have known : f x ⊆ front.flatMap f := fun b hb => List.mem_flatMap.2 ⟨x, hx, hb⟩
  rw [List.flatMap_append, List.flatMap_cons, ← List.append_assoc, List.flatMap_append]
  exact firsts_append_congr (firsts_append_of_subset known) rfl

theorem Repeats.firsts_map (h : Repeats xs ys) (f : α → β) :
    firsts key (ys.map f) = firsts key (xs.map f) := by
  rw [List.map_eq_flatMap, List.map_eq_flatMap]
  exact h.firsts_flatMap _

theorem firsts_stream_of_repeats {facts facts' : Facts} (h : RepeatsIn facts facts')
    (key : Candidate → κ) : firsts key (stream facts') = firsts key (stream facts) := by
  unfold stream
  cases h with
  | tables h =>
    refine firsts_append_congr (firsts_append_congr ?_ rfl) ?_
    · apply firsts_flatMap_congr
      intro condition _
      apply firsts_flatMap_congr
      intro column _
      exact h.firsts_map _
    · apply firsts_flatMap_congr
      intro item _
      exact h.firsts_map _
  | columns h => rfl
  | conditions h =>
    exact firsts_append_congr (firsts_append_congr (h.firsts_flatMap _) rfl) rfl
  | joins h =>
    exact firsts_append_congr (firsts_append_congr rfl (h.firsts_flatMap _)) rfl
  | order h => exact firsts_append_congr rfl (h.firsts_flatMap _)

theorem grouped_stream_of_repeats {facts facts' : Facts} (h : RepeatsIn facts facts') :
    grouped (stream facts') = grouped (stream facts) := by
  unfold grouped indexesOf
  rw [firsts_stream_of_repeats h, firsts_stream_of_repeats h]

end Repeats

theorem card_pairs (cs : List Candidate) :
    (firsts Candidate.pair cs).length = (cs.map Candidate.pair).toFinset.card := by
  have same : (cs.map Candidate.pair).toFinset =
      ((firsts Candidate.pair cs).map Candidate.pair).toFinset := by
    ext k
    rw [List.mem_toFinset, List.mem_toFinset, mem_map_firsts]
  rw [same, List.toFinset_card_of_nodup (nodup_map_firsts Candidate.pair cs), List.length_map]

/-- Of the candidates of a query the first one for each table and column is listed: tables in the
order of their first candidates, and the indexes of a table in that of theirs. The list, the number
of indexes and the lookups agree, and repetitions in the facts change nothing. -/
theorem ofFacts_groups (facts : Facts) :
    (Recommendations.ofFacts facts).toList =
        (firsts Candidate.table (stream facts)).flatMap (fun lead =>
          ((firsts Candidate.pair (stream facts)).filter fun c => c.table = lead.table).map
            Candidate.entry) ∧
      (Recommendations.ofFacts facts).toList.Perm
        ((firsts Candidate.pair (stream facts)).map Candidate.entry) ∧
      (Recommendations.ofFacts facts).tables =
        (firsts Candidate.table (stream facts)).map Candidate.table ∧
      (Recommendations.ofFacts facts).size =
        ((stream facts).map Candidate.pair).toFinset.card ∧
      (∀ table ∈ (Recommendations.ofFacts facts).tables,
        ∃ entry ∈ (Recommendations.ofFacts facts).toList, entry.1 = table) ∧
      (∀ table index rec, (Recommendations.ofFacts facts).get? table index = some rec ↔
        (table, index, rec) ∈ (Recommendations.ofFacts facts).toList) ∧
      ∀ facts', RepeatsIn facts facts' →
        Recommendations.ofFacts facts' = Recommendations.ofFacts facts := by
  have tables : Recommendations.tables ⟨grouped (stream facts)⟩ = _ := tables_grouped _
  have listed := perm_toList_grouped (stream facts)
  rw [ofFacts_eq, tables]
  refine ⟨toList_grouped _, listed, rfl, ?_, ?_, fun _ _ _ => get?_eq_some_iff _, ?_⟩
  · rw [← length_toList, listed.length_eq, List.length_map, card_pairs]
  · intro table ht
    obtain ⟨lead, hl, rfl⟩ := List.mem_map.1 ht
    have known : lead.pair ∈ (firsts Candidate.pair (stream facts)).map Candidate.pair :=
      mem_map_firsts.2 (List.mem_map_of_mem (firsts_subset hl))
    obtain ⟨c, hc, e⟩ := List.mem_map.1 known
    exact ⟨c.entry, listed.mem_iff.2 (List.mem_map_of_mem hc), congrArg Prod.fst e⟩
  · intro facts' repeats
    rw [ofFacts_eq, grouped_stream_of_repeats repeats]

def twoTables : Facts :=
  { tables := ["orders", "users"]
    columns := []
    whereConditions := ["id = 5"]
    joinConditions := [⟨"users", "users.id = orders.user_id"⟩]
    orderItems := ["id DESC"] }

theorem ofFacts_twoTables :
    (Recommendations.ofFacts twoTables).toList.map (fun entry => entry.2.1) =
        (["idx_orders_id", "idx_orders_user_id", "idx_users_id"] : List String).map
          String.toList ∧
      ((Recommendations.ofFacts twoTables).get? "users" "idx_users_id").map (·.reason) =
        some "Used in WHERE condition: id = 5".toList ∧
      Recommendations.ofFacts { twoTables with orderItems := ["id DESC", "id DESC"] } =
        Recommendations.ofFacts twoTables := by
  obtain ⟨listed, _, _, _, _, found, unchanged⟩ := ofFacts_groups twoTables
  have order : Repeats twoTables.orderItems ["id DESC", "id DESC"] :=
    ⟨["id DESC"], [], "id DESC", by simp, rfl, rfl⟩
  refine ⟨?_, ?_, unchanged _ (.order order)⟩
  · rw [listed]
    decide +kernel
  · let first : Candidate := ⟨"users", "id", "Used in WHERE condition: id = 5"⟩
    have member : first.entry ∈ (Recommendations.ofFacts twoTables).toList := by
      rw [listed]
      decide +kernel
    have here : (Recommendations.ofFacts twoTables).get? "users" "idx_users_id" =
        some first.entry.2.2 := (found _ _ _).2 member
    rw [here]
    rfl

end SqlReview.Index
