import SqlReview.Proofs.Query.Parentheses
import SqlReview.Proofs.Text.Occurrences

/-!
What a JOIN reads. It is found with the words before it, and the text after it tells a condition if
an ON outside of parentheses comes before the next join or clause.
-/
namespace SqlReview.Query

open Sql
open Pattern (Starts Finds inWord wordRun isSpelling)

section Leads

variable {s part rest : Text} {before : Option Char}

theorem reserved_of_joinLeads : ∀ w ∈ joinLeads, w ∈ reservedWords := by decide

theorem lead_spelled {n : Nat} (h : leadLength? s = some n) :
    ∃ lead ∈ joinLeads, isSpelling lead (wordRun s) = true ∧
      n = lead.length + Pattern.blankCount (s.drop lead.length) := by
  obtain ⟨lead, known, holds⟩ := List.exists_of_findSome?_eq_some h
  simp only [Option.ite_none_right_eq_some, Bool.and_eq_true, bne_iff_ne] at holds
  obtain ⟨⟨spelled, gap⟩, hn⟩ := holds
  have capital := (capitals_of_reserved lead (reserved_of_joinLeads lead known)).2
  have run := Pattern.isSpelling_wordRun capital spelled (Pattern.inWord_of_blankCount gap)
  exact ⟨lead, known, run, (Option.some.inj hn).symm⟩

section Steps

-- kept closed, so that the steps below compare without opening the list of leads
attribute [local irreducible] leadLength?

theorem leadsLengthFrom_succ (n : Nat) (c : Char) (s : Text) :
    leadsLengthFrom (n + 1) (c :: s) = leadsLengthFrom n s + 1 := rfl

theorem leadsLength_cons (c : Char) (s : Text) :
    leadsLength (c :: s) = match leadLength? (c :: s) with
      | some (n + 1) => leadsLengthFrom n s + 1
      | _ => 0 := rfl

end Steps

theorem leadsLength_of_none (h : leadLength? s = none) : leadsLength s = 0 := by
  cases s with
  | nil => rfl
  | cons c s => rw [leadsLength_cons, h]

theorem leadsLengthFrom_skip (part rest : Text) :
    leadsLengthFrom part.length (part ++ rest) = part.length + leadsLength rest := by
  induction part with
  | nil => exact (Nat.zero_add _).symm
  | cons c part ih =>
    rw [List.length_cons, List.cons_append, leadsLengthFrom_succ, ih]
    omega

theorem leadsLength_append (filled : part ≠ [])
    (h : leadLength? (part ++ rest) = some part.length) :
    leadsLength (part ++ rest) = part.length + leadsLength rest := by
  cases part with
  | nil => exact absurd rfl filled
  | cons c part =>
    rw [List.cons_append, List.length_cons] at h
    rw [List.cons_append, leadsLength_cons, h]
    simp only
    rw [leadsLengthFrom_skip, List.length_cons]
    omega

def joinKeywords : List Text := "JOIN".toList :: joinLeads

theorem join_reserved : "JOIN".toList ∈ reservedWords := by decide

theorem joinKeywords_subset : joinKeywords ⊆ reservedWords :=
  List.cons_subset.2 ⟨join_reserved, reserved_of_joinLeads⟩

theorem starts_joinKeyword : Starts joinKeyword joinKeywords := by
  intro before s n hn
  unfold joinKeyword at hn
  split at hn
  · cases hn
  · rename_i alone
    obtain ⟨k, found, rfl⟩ := Option.map_eq_some_iff.1 hn
    obtain ⟨pos, _, filled, w, hw, spelled⟩ := starts_keyword join_reserved _ _ k found
    refine ⟨Nat.add_pos_right _ pos, Bool.not_eq_true _ ▸ alone, ?_⟩
    -- the run here is a lead word if there is one, and JOIN if there is none
    cases e : leadLength? s with
    | none =>
      rw [leadsLength_of_none e, List.drop_zero] at filled spelled
      obtain rfl := List.mem_singleton.1 hw
      exact ⟨filled, _, List.mem_cons_self .., spelled⟩
    | some m =>
      obtain ⟨lead, known, spelled, _⟩ := lead_spelled e
      have capital := capitals_of_reserved lead (reserved_of_joinLeads lead known)
      exact ⟨Pattern.wordRun_ne_nil capital.1 spelled, lead, List.mem_cons_of_mem _ known, spelled⟩

theorem exists_lead {n : Nat} (h : leadLength? s = some n) :
    ∃ lead ∈ joinLeads, ∃ run gap rest, s = run ++ (gap ++ rest) ∧ isSpelling lead run = true ∧
      gap ≠ [] ∧ (∀ c ∈ gap, Text.isBlank c = true) ∧ n = (run ++ gap).length := by
  obtain ⟨lead, known, holds⟩ := List.exists_of_findSome?_eq_some h
  simp only [Option.ite_none_right_eq_some, Bool.and_eq_true, bne_iff_ne] at holds
  obtain ⟨⟨spelled, gap⟩, hn⟩ := holds
  have capital := (capitals_of_reserved lead (reserved_of_joinLeads lead known)).2
  have long := (Pattern.isWord_of_spells capital spelled).2
  refine ⟨lead, known, s.take lead.length, _,
    (s.drop lead.length).drop (Pattern.blankCount (s.drop lead.length)), ?_,
    Pattern.isSpelling_take capital spelled, Pattern.take_blankCount_ne_nil gap,
    Pattern.isBlank_take_blankCount _, ?_⟩
  · rw [List.take_append_drop, List.take_append_drop]
  · rw [← Option.some.inj hn, List.length_append, Pattern.take_blankCount,
      List.length_take_of_le long]
    rfl

/-- A word before JOIN is one lead only, with the whole gap after it. -/
theorem leadLength?_lead {w run gap : Text} (known : w ∈ joinLeads)
    (spelled : isSpelling w run = true) (filled : gap ≠ [])
    (blank : ∀ c ∈ gap, Text.isBlank c = true) (solid : ∀ c ∈ rest.head?, Text.isBlank c = false) :
    leadLength? (run ++ (gap ++ rest)) = some (run ++ gap).length := by
  have capital {w : Text} (known : w ∈ joinLeads) :=
    (capitals_of_reserved w (reserved_of_joinLeads w known)).2
  have gapped : Pattern.blankCount ((run ++ (gap ++ rest)).drop w.length) = gap.length := by
    rw [Pattern.length_of_isSpelling spelled, List.drop_left' rfl,
      Pattern.blankCount_append blank solid]
  have wide : (gap.length != 0) = true := by
    rw [bne_iff_ne]
    exact fun none => filled (List.eq_nil_of_length_eq_zero none)
  have found : (leadLength? (run ++ (gap ++ rest))).isSome := by
    unfold leadLength?
    rw [List.findSome?_isSome_iff]
    refine ⟨w, known, ?_⟩
    simp only [gapped, wide, Pattern.spells_append spelled]
    rfl
  obtain ⟨n, hn⟩ := Option.isSome_iff_exists.1 found
  obtain ⟨lead, known', same, e⟩ := lead_spelled hn
  have word := Pattern.isWord_of_isSpelling (capital known) spelled
  rw [Pattern.wordRun_append word (Pattern.inWord_head_blank filled blank rest)] at same
  have sole : w = lead :=
    Pattern.eq_of_isSpelling (capital known) (capital known') spelled same
  rw [hn, e, ← sole, gapped, Pattern.length_of_isSpelling spelled, List.length_append]

theorem leadLength?_join {run : Text} (spelled : isSpelling "JOIN" run = true)
    (after : inWord rest.head? = false) : leadLength? (run ++ rest) = none := by
  have capital := (capitals_of_reserved _ join_reserved).2
  have other : "JOIN".toList ∉ joinLeads := by decide
  rw [Option.eq_none_iff_forall_ne_some]
  intro n hn
  obtain ⟨lead, known, same, _⟩ := lead_spelled hn
  rw [Pattern.wordRun_append (Pattern.isWord_of_isSpelling capital spelled) after] at same
  have join := Pattern.eq_of_isSpelling capital
    (capitals_of_reserved lead (reserved_of_joinLeads lead known)).2 spelled same
  exact other (join ▸ known)

/-- JOIN in any letter case, and the words before it with blanks after each. -/
inductive IsJoin : Text → Prop
  | join {run : Text} (spelled : isSpelling "JOIN" run = true) : IsJoin run
  | lead {w run gap s : Text} (known : w ∈ joinLeads) (spelled : isSpelling w run = true)
      (filled : gap ≠ []) (blank : ∀ c ∈ gap, Text.isBlank c = true) (more : IsJoin s) :
      IsJoin (run ++ (gap ++ s))

namespace IsJoin

variable {k run : Text}

theorem inWord_head (h : IsJoin k) : inWord k.head? = true := by
  cases h with
  | join spelled =>
    exact (Pattern.inWord_ends_of_isSpelling (capitals_of_reserved _ join_reserved) spelled).1
  | lead known spelled =>
    have capital := capitals_of_reserved _ (reserved_of_joinLeads _ known)
    exact Pattern.inWord_head_append_of (Pattern.inWord_ends_of_isSpelling capital spelled).1 _

theorem inWord_getLast (h : IsJoin k) : inWord k.getLast? = true := by
  induction h with
  | join spelled =>
    exact (Pattern.inWord_ends_of_isSpelling (capitals_of_reserved _ join_reserved) spelled).2
  | lead _ _ _ _ _ ih =>
    rw [← List.append_assoc]
    exact Pattern.inWord_getLast_append_of ih _

theorem exists_leads (h : IsJoin k) (after : inWord rest.head? = false) :
    ∃ leads run, k = leads ++ run ∧ isSpelling "JOIN" run = true ∧
      leadsLength (k ++ rest) = leads.length := by
  induction h with
  | @join run spelled =>
    exact ⟨[], run, rfl, spelled, leadsLength_of_none (leadLength?_join spelled after)⟩
  | @lead w run gap s known spelled filled blank more ih =>
    obtain ⟨leads, join, e, joined, length⟩ := ih
    have solid : ∀ c ∈ (s ++ rest).head?, Text.isBlank c = false := by
      intro c hc
      have word := Pattern.inWord_head_append_of more.inWord_head rest
      rw [Option.mem_def.1 hc] at word
      exact Text.not_isBlank_of_isWord word
    have first := leadLength?_lead known spelled filled blank solid
    have some_ : run ++ gap ≠ [] := List.append_ne_nil_of_right_ne_nil _ filled
    refine ⟨run ++ (gap ++ leads), join, ?_, joined, ?_⟩
    · rw [e]
      simp
    · rw [← List.append_assoc] at first
      rw [List.append_assoc, List.append_assoc, ← List.append_assoc,
        leadsLength_append some_ first, length]
      simp [Nat.add_assoc]

theorem take_append (s : Text) (spelled : isSpelling "JOIN" run = true) :
    IsJoin (s.take (leadsLength s) ++ run) := by
  cases e : leadLength? s with
  | none =>
    rw [leadsLength_of_none e]
    exact .join spelled
  | some n =>
    obtain ⟨lead, known, run', gap, rest, rfl, spelled', filled, blank, rfl⟩ := exists_lead e
    have shorter : rest.length < (run' ++ (gap ++ rest)).length := by
      have := List.length_pos_iff.2 filled
      simp only [List.length_append]
      omega
    have some_ : run' ++ gap ≠ [] := List.append_ne_nil_of_right_ne_nil _ filled
    rw [← List.append_assoc] at e
    rw [← List.append_assoc, leadsLength_append some_ e, List.take_length_add_append,
      List.append_assoc, List.append_assoc]
    exact .lead known spelled' filled blank (take_append rest spelled)
termination_by s.length

end IsJoin

/-- A join is found with all the words before it. -/
theorem finds_joinKeyword : Finds joinKeyword IsJoin where
  covers_iff {before k rest} := by
    have join := Pattern.finds_word (capitals_of_reserved _ join_reserved)
    constructor
    · intro h
      rw [joinKeyword, Option.ite_none_left_eq_some] at h
      obtain ⟨alone, found⟩ := h
      obtain ⟨m, hm, length⟩ := Option.map_eq_some_iff.1 found
      have parts : k = (k ++ rest).take _ := (List.take_left' length.symm).symm
      rw [List.take_add] at parts
      obtain ⟨_, spelled, after⟩ := join.covered hm
      have isJoin := IsJoin.take_append (k ++ rest) spelled
      rw [← parts] at isJoin
      rw [List.drop_drop, length, List.drop_left' rfl] at after
      exact ⟨Bool.not_eq_true _ ▸ alone, isJoin, after⟩
    · rintro ⟨alone, isJoin, after⟩
      obtain ⟨leads, run, rfl, spelled, length⟩ := isJoin.exists_leads after
      have covers : Pattern.word "JOIN" none (run ++ rest) = some run.length :=
        Pattern.word_covers rfl spelled after
      rw [joinKeyword, alone, length, List.append_assoc, List.drop_left' rfl, covers,
        List.length_append]
      rfl
  within {before s n} h := by
    rw [joinKeyword, Option.ite_none_left_eq_some] at h
    obtain ⟨m, hm, rfl⟩ := Option.map_eq_some_iff.1 h.2
    obtain ⟨pos, _⟩ := starts_keyword join_reserved _ _ m hm
    have inside := (Pattern.finds_word (capitals_of_reserved _ join_reserved)).within hm
    rw [List.length_drop] at inside
    omega
  first := IsJoin.inWord_head
  last := IsJoin.inWord_getLast

inductive Leads : Text → Prop
  | none : Leads []
  | lead {w gap s : Text} (known : w ∈ joinLeads) (k : Keyword w) (filled : gap ≠ [])
      (blank : ∀ c ∈ gap, Text.isBlank c = true) (more : Leads s) : Leads (k.text ++ gap ++ s)

theorem Leads.isJoin (leads : Leads s) (k : Keyword "JOIN") : IsJoin (s ++ k.text) := by
  induction leads with
  | none => exact .join (k.isSpelling join_reserved)
  | lead known k' filled blank more ih =>
    rw [List.append_assoc, List.append_assoc]
    exact .lead known (k'.isSpelling (reserved_of_joinLeads _ known)) filled blank ih

theorem joinKeyword_covers (leads : Leads s) (k : Keyword "JOIN")
    (alone : inWord before = false) (after : inWord rest.head? = false) :
    joinKeyword before (s ++ k.text ++ rest) = some (s ++ k.text).length :=
  finds_joinKeyword.covers_iff.2 ⟨alone, leads.isJoin k, after⟩

end Leads

section Level

theorem IsJoin.unnested {k : Text} (h : IsJoin k) : Unnested k := by
  have word {w run : Text} (known : w ∈ joinKeywords) (spelled : isSpelling w run = true) :
      Unnested run := unnested_word
    (Pattern.isWord_of_isSpelling (capitals_of_reserved w (joinKeywords_subset known)).2 spelled)
  induction h with
  | join spelled => exact word List.mem_cons_self spelled
  | lead known spelled _ blank _ ih =>
    exact (word (List.mem_cons_of_mem _ known) spelled).append ((unnested_blank blank).append ih)

theorem level_joinKeyword : Level joinKeyword := fun _ _ _ h =>
  (finds_joinKeyword.covered h).2.1.unnested

def predicateEndWords : List Text :=
  joinKeywords ++ (["WHERE", "GROUP", "ORDER", "LIMIT"] : List String).map String.toList

theorem starts_predicateEnd : Starts predicateEnd predicateEndWords := by
  apply Pattern.starts_oneOf
  intro p hp
  simp only [List.mem_cons, List.not_mem_nil, or_false] at hp
  rcases hp with rfl | rfl | rfl | rfl | rfl
  · exact starts_joinKeyword.mono (by decide)
  · exact (starts_keyword (by decide)).mono (by decide)
  · exact (starts_keywords (by decide) "BY").mono (by decide)
  · exact (starts_keywords (by decide) "BY").mono (by decide)
  · exact (starts_keyword (by decide)).mono (by decide)

def IsBoundary (k : Text) : Prop :=
  IsJoin k ∨ isSpelling "WHERE" k = true ∨ Pattern.IsPhrase "GROUP" "BY" k ∨
    Pattern.IsPhrase "ORDER" "BY" k ∨ isSpelling "LIMIT" k = true

theorem finds_keyword {w : Text} (known : w ∈ reservedWords) :
    Starts (.word w) [w] ∧ Finds (.word w) fun k => isSpelling w k = true :=
  ⟨starts_keyword known, Pattern.finds_word (capitals_of_reserved w known)⟩

theorem finds_keywords_by {w : Text} (known : w ∈ reservedWords) :
    Starts (.phrase w "BY") [w] ∧ Finds (.phrase w "BY") (Pattern.IsPhrase w "BY") :=
  ⟨starts_keywords known "BY", Pattern.finds_phrase (capitals_of_reserved w known)
    (capitals_of_reserved "BY" (by decide))⟩

/-- Keywords of different patterns, of which at most one holds at a place. -/
theorem finds_keywords {p : Pattern} {ps : List Pattern} {ws ws' : List Text} {K L : Text → Prop}
    (hp : Starts p ws ∧ Finds p K) (hps : Starts (.oneOf ps) ws' ∧ Finds (.oneOf ps) L)
    (known : ws ++ ws' ⊆ reservedWords) (other : ∀ w ∈ ws, w ∉ ws') :
    Starts (.oneOf (p :: ps)) (ws ++ ws') ∧ Finds (.oneOf (p :: ps)) fun k => K k ∨ L k := by
  constructor
  · apply Pattern.Starts.oneOf_cons
    · exact hp.1.mono (List.subset_append_left _ _)
    · exact hps.1.mono (List.subset_append_right _ _)
  · apply hp.2.oneOf_cons hps.2
    exact hp.1.apart hps.1 (fun w hw => capitals_of_reserved w (known hw)) other

theorem finds_predicateEnd : Finds predicateEnd IsBoundary := by
  have limit := finds_keyword (w := "LIMIT") (by decide)
  rw [← Pattern.oneOf_singleton (.word "LIMIT")] at limit
  have order := finds_keywords (finds_keywords_by (w := "ORDER") (by decide)) limit (by decide)
    (by decide)
  have group := finds_keywords (finds_keywords_by (w := "GROUP") (by decide)) order (by decide)
    (by decide)
  have where_ := finds_keywords (finds_keyword (w := "WHERE") (by decide)) group (by decide)
    (by decide)
  exact (finds_keywords ⟨starts_joinKeyword, finds_joinKeyword⟩ where_ (by decide) (by decide)).2

theorem level_predicateEnd : Level predicateEnd := by
  have word {w : Text} (known : w ∈ reservedWords) : Level (.word w) :=
    level_word (capitals_of_reserved w known)
  have phrase {w : Text} (known : w ∈ reservedWords) : Level (.phrase w "BY") :=
    level_phrase (capitals_of_reserved w known) (capitals_of_reserved _ (by decide))
  apply level_oneOf
  intro p hp
  simp only [List.mem_cons, List.not_mem_nil, or_false] at hp
  rcases hp with rfl | rfl | rfl | rfl | rfl
  · exact level_joinKeyword
  · exact word (by decide)
  · exact phrase (by decide)
  · exact phrase (by decide)
  · exact word (by decide)

end Level

section Scope

variable {ws : List Text} {s t gap : Text}

theorem Neutral.leads (sub : ws ⊆ reservedWords) (other : ∀ w ∈ joinKeywords, w ∉ ws)
    (leads : Leads s) (k : Keyword "JOIN") : Neutral ws (s ++ k.text) := by
  induction leads with
  | none => exact .keyword join_reserved k sub (other _ List.mem_cons_self)
  | @lead w gap s known lead filled blank more ih =>
    have first : Neutral ws lead.text :=
      .keyword (reserved_of_joinLeads w known) lead sub (other w (List.mem_cons_of_mem _ known))
    rw [List.append_assoc, List.append_assoc]
    exact first.append (ih.blank_append blank) (Pattern.inWord_head_blank filled blank _)

theorem inWord_head_of_initial {s t : Text} (sub : s <+: t) (after : inWord t.head? = false) :
    inWord s.head? = false := by
  obtain ⟨u, rfl⟩ := sub
  cases s with
  | nil => rfl
  | cons c s => exact after

/-- Nothing but blanks is left, or a place comes after a gap where the pattern holds. -/
inductive Ends (p : Pattern) : Text → Prop
  | blank {s : Text} (h : ∀ c ∈ s, Text.isBlank c = true) : Ends p s
  | keyword {gap s : Text} (filled : gap ≠ []) (blank : ∀ c ∈ gap, Text.isBlank c = true)
      (holds : ∀ before, inWord before = false → (p before s).isSome) : Ends p (gap ++ s)

/-- The words that a condition of a join and what stands around it are found by. -/
def scopeWords : List Text := "ON" :: predicateEndWords

theorem scopeWords_subset : scopeWords ⊆ reservedWords := by decide

theorem predicateEndWords_subset : predicateEndWords ⊆ scopeWords := List.subset_cons_self _ _

theorem on_subset : ["ON".toList] ⊆ scopeWords := List.cons_subset_cons _ (List.nil_subset _)

theorem starts_on : Starts (Pattern.word "ON") ["ON"] := starts_keyword (by decide)

theorem level_on : Level (.word "ON") := level_word (capitals_of_reserved _ (by decide))

theorem Sealed.trim_predicate (h : Sealed scopeWords s) (tight : Text.Tight s)
    (blank : ∀ c ∈ gap, Text.isBlank c = true) (ends : Ends predicateEnd t) :
    Text.trim (match firstOutside? predicateEnd (gap ++ (s ++ t)) with
      | some boundary => boundary.before
      | none => gap ++ (s ++ t)) = s := by
  have part : Sealed predicateEndWords (gap ++ s) :=
    (h.mono predicateEndWords_subset).blank_append blank
  cases ends with
  | blank later =>
    rw [← List.append_assoc, part.firstOutside?_none starts_predicateEnd level_predicateEnd later,
      List.append_assoc]
    exact Text.trim_padded blank tight later
  | @keyword gap' t filled blank' holds =>
    obtain ⟨_, n, _, _, found⟩ :=
      part.firstOutside?_some starts_predicateEnd level_predicateEnd filled blank' holds
    rw [← List.append_assoc, found, List.append_assoc]
    exact Text.trim_padded blank tight blank'

theorem ofScope?_sealed_on {lead table before after predicate : Text} (k : Keyword "ON")
    (table_ : Sealed scopeWords table) (tight : Text.Tight table)
    (predicate_ : Sealed scopeWords predicate) (tight' : Text.Tight predicate)
    (blank : ∀ c ∈ lead, Text.isBlank c = true) (filled : before ≠ [])
    (blank' : ∀ c ∈ before, Text.isBlank c = true) (filled' : after ≠ [])
    (blank'' : ∀ c ∈ after, Text.isBlank c = true) (ends : Ends predicateEnd t) :
    JoinCondition.ofScope? (lead ++ (table ++ (before ++ (k.text ++
      (after ++ (predicate ++ t)))))) = some ⟨table, predicate⟩ := by
  have part : Sealed scopeWords (lead ++ table) := table_.blank_append blank
  have apart : inWord (after ++ (predicate ++ t)).head? = false :=
    Pattern.inWord_head_blank filled' blank'' _
  have covers (b : Option Char) (alone : inWord b = false) : Pattern.word "ON" b
      (k.text ++ (after ++ (predicate ++ t))) = some k.text.length :=
    k.word_covers (by decide) alone apart
  obtain ⟨b, n, alone, hn, found⟩ := (part.mono on_subset).firstOutside?_some starts_on level_on
    filled blank' (t := k.text ++ (after ++ (predicate ++ t))) fun b alone => by
      rw [covers b alone]
      rfl
  have bare : firstOutside? predicateEnd ((lead ++ table) ++ before) = none :=
    (part.mono predicateEndWords_subset).firstOutside?_none starts_predicateEnd
      level_predicateEnd blank'
  obtain rfl := Option.some.inj ((covers b alone).symm.trans hn)
  rw [List.drop_left' rfl] at found
  unfold JoinCondition.ofScope?
  rw [← List.append_assoc, found]
  simp only
  rw [bare, List.append_assoc, Text.trim_padded blank tight blank']
  exact congrArg (fun text => some (JoinCondition.mk table text))
    (predicate_.trim_predicate tight' blank'' ends)

theorem ofScope?_of_sealed (h : Sealed ["ON"] s) (blank : ∀ c ∈ gap, Text.isBlank c = true) :
    JoinCondition.ofScope? (s ++ gap) = none := by
  unfold JoinCondition.ofScope?
  rw [h.firstOutside?_none starts_on level_on blank]

/-- A JOIN that comes before any ON keeps it from the join before. -/
theorem ofScope?_sealed_join {leads : Text} (h : Sealed scopeWords s) (filled : gap ≠ [])
    (blank : ∀ c ∈ gap, Text.isBlank c = true) (hl : Leads leads) (k : Keyword "JOIN")
    (after : inWord t.head? = false) :
    JoinCondition.ofScope? (s ++ (gap ++ (leads ++ k.text ++ t))) = none := by
  have words : Neutral ["ON"] (leads ++ k.text) := .leads (by decide) (by decide) hl k
  have part : Sealed ["ON"] (s ++ (gap ++ (leads ++ k.text))) :=
    (h.mono on_subset).append (.of_neutral (words.blank_append blank))
      (Pattern.inWord_head_blank filled blank _)
  have found := part.firstOutside?_append starts_on level_on after
  rw [List.append_assoc, List.append_assoc] at found
  unfold JoinCondition.ofScope?
  cases e : firstOutside? (.word "ON") (s ++ (gap ++ (leads ++ k.text ++ t))) with
  | none => rfl
  | some on =>
    -- the JOIN stands before the ON as a whole, since it has none in it
    rw [found] at e
    obtain ⟨u, before, sub⟩ := Pattern.before_of_mem_occurrencesFrom (List.mem_of_find?_eq_some e)
    rw [List.reverse_reverse, List.append_assoc, List.append_assoc] at before
    have join (b : Option Char) (alone : inWord b = false) :
        (predicateEnd b (leads ++ k.text ++ u)).isSome := by
      rw [predicateEnd, Pattern.oneOf_of_some
        (joinKeyword_covers hl k alone (inWord_head_of_initial sub after))]
      rfl
    obtain ⟨_, _, _, _, boundary⟩ := (h.mono predicateEndWords_subset).firstOutside?_some
      starts_predicateEnd level_predicateEnd filled blank join
    simp only
    rw [before, boundary]
    rfl

end Scope

end SqlReview.Query
