import SqlReview.Proofs.Insight.Findings
import SqlReview.Proofs.Json.Numerals
import SqlReview.Proofs.Text.Basic

/-!
Row estimates in quotes. Digits that fit 64 bits give the same rows as the number that they spell;
any other number that is quoted is no estimate, so what the rule about full scans says of its step
is said as if nothing were known.
-/
namespace SqlReview.Plan

open Insight (Rule Shipped IsConcern fullScanInsight_eq isConcern_iff_of_rows)

/-- The numeral of a number that is not negative, and the blanks around it within the quotes. -/
structure Quotation where
  before : Text
  numeral : Text
  after : Text
  number : Numeral
  spelled : Numeral.read? numeral = some (number, [])
  /-- Only zero has a minus sign. -/
  unsigned : numeral.head? = some '-' → number.IsZero
  blank_before : ∀ c ∈ before, Text.isBlank c = true
  blank_after : ∀ c ∈ after, Text.isBlank c = true

namespace Quotation

def plain (q : Quotation) : Json := .number q.number

def quoted (q : Quotation) : Json := .string (q.before ++ (q.numeral ++ q.after))

/-- Neither a sign, a fraction nor an exponent, and a value that fits 64 bits. -/
def IsWhole (q : Quotation) : Prop :=
  q.numeral.all Text.isAsciiDigit = true ∧ Text.valueIn 10 q.numeral ≤ Numeral.maxNatural

instance (q : Quotation) : Decidable q.IsWhole := inferInstanceAs (Decidable (_ ∧ _))

theorem exists_rows (q : Quotation) : ∃ rows, readRows? (some q.plain) = some rows := by
  have nonnegative : (∃ v, q.number = .natural v) ∨
      ∃ x, q.number = .real x ∧ (x.negative && !x.isZero) = false := by
    by_cases minus : q.numeral.head? = some '-'
    · have zero := q.unsigned minus
      cases h : q.number with
      | natural v => exact .inl ⟨v, rfl⟩
      | negative v =>
        rw [h] at zero
        exact zero.elim
      | real x =>
        rw [h] at zero
        exact .inr ⟨x, rfl, by simp [show x.isZero = true from zero]⟩
    · obtain natural | ⟨x, real, positive⟩ := Numeral.unsigned_of_read? q.spelled minus
      · exact .inl natural
      · exact .inr ⟨x, real, by simp [positive]⟩
  obtain ⟨v, natural⟩ | ⟨x, real, counted⟩ := nonnegative
  · exact ⟨v, by rw [plain, natural]; rfl⟩
  · exact ⟨_, by simp only [plain, real, readRows?, counted]; rfl⟩

theorem trim_quoted (q : Quotation) :
    Text.trim (q.before ++ (q.numeral ++ q.after)) = q.numeral :=
  Text.trim_padded q.blank_before (Text.tight_of_solid (Numeral.solid_of_read? q.spelled))
    q.blank_after

/-- No numeral begins with a plus sign, so all of it has to be digits. -/
theorem naturalText?_numeral (q : Quotation) : naturalText? q.numeral =
    if q.IsWhole then some (Text.valueIn 10 q.numeral) else none := by
  obtain ⟨c, t, e, start⟩ := Numeral.head_of_read? q.spelled
  have plus : c ≠ '+' := by
    rintro rfl
    rcases start with h | h <;> exact absurd h (by decide)
  simp only [IsWhole, e, naturalText?]
  split
  · next digits h =>
    cases h
    exact absurd rfl plus
  · simp

theorem readRows?_quoted (q : Quotation) : readRows? (some q.quoted) =
    if q.IsWhole then readRows? (some q.plain) else none := by
  rw [quoted, readRows?, trim_quoted, naturalText?_numeral]
  by_cases whole : q.IsWhole
  · rw [if_pos whole, if_pos whole, plain,
      Numeral.read?_of_digits q.spelled (List.all_eq_true.1 whole.1) whole.2]
    rfl
  · rw [if_neg whole, if_neg whole]

end Quotation

/-- A step of a plan, and the number that its estimate is, if that is not what its node has. -/
structure Estimated where
  node : Node
  quotation : Option Quotation

namespace Estimated

def read (given : Quotation → Json) (s : Estimated) : Node :=
  { s.node.bare with rows := s.quotation.elim s.node.rows fun q => readRows? (some (given q)) }

def plain : Estimated → Node := read Quotation.plain

def quoted : Estimated → Node := read Quotation.quoted

/-- The step has an estimate that is lost between quotes. -/
def Loses (s : Estimated) : Prop := ∃ q ∈ s.quotation, ¬ q.IsWhole

section Insights

variable {s : Estimated} {t : Thresholds}

theorem quoted_eq_plain (h : ¬ s.Loses) : s.quoted = s.plain := by
  obtain ⟨node, quotation⟩ := s
  cases quotation with
  | none => rfl
  | some q =>
    have whole : q.IsWhole := not_not.1 fun not => h ⟨q, rfl, not⟩
    simp only [quoted, plain, read, Option.elim_some, q.readRows?_quoted, if_pos whole]

theorem rows_of_loses (h : s.Loses) :
    s.quoted.rows = none ∧ ∃ rows, s.plain.rows = some rows := by
  obtain ⟨q, hq, not⟩ := h
  obtain ⟨rows, counted⟩ := q.exists_rows
  have given : s.quotation = some q := hq
  simp only [quoted, plain, read, given, Option.elim_some, q.readRows?_quoted, if_neg not,
    counted]
  exact ⟨trivial, rows, rfl⟩

theorem fullScanInsight_ne {n n' : Node} {rows : Nat} (unknown : n.rows = none)
    (known : n'.rows = some rows) : Rule.fullScanInsight t n ≠ Rule.fullScanInsight t n' := by
  have without : (Rule.fullScanInsight t n).message.take 12 = "Table scan d" := by
    simp only [Rule.fullScanInsight, unknown]
    rfl
  have told : (Rule.fullScanInsight t n').message.take 12 = "Table scan o" := by
    simp only [Rule.fullScanInsight, known]
    split
    · rfl
    · split <;> rfl
  intro same
  rw [same, told] at without
  exact absurd without (by decide)

theorem fullScanInsight_quoted_iff :
    Rule.fullScanInsight t s.quoted = Rule.fullScanInsight t s.plain ↔ ¬ s.Loses := by
  constructor
  · intro same lost
    obtain ⟨unknown, rows, known⟩ := rows_of_loses lost
    exact fullScanInsight_ne unknown known same
  · intro kept
    rw [quoted_eq_plain kept]

theorem category_quoted_iff (scan : s.node.operation = .fullScan) :
    (Rule.fullScanInsight t s.quoted).category = (Rule.fullScanInsight t s.plain).category ↔
      (s.Loses → IsConcern t s.plain) := by
  have category (n : Node) (h : n.operation = .fullScan) :
      (Rule.fullScanInsight t n).category =
        if IsConcern t n then .majorConcerns else .opportunities := by
    rw [fullScanInsight_eq h]
    split <;> rfl
  rw [category s.quoted scan, category s.plain scan]
  by_cases lost : s.Loses
  · have concern : IsConcern t s.quoted := ⟨scan, by simp [(rows_of_loses lost).1]⟩
    rw [if_pos concern]
    simp [lost]
  · simp [quoted_eq_plain lost, lost]

end Insights

section Plans

variable {database : Database} {t : Thresholds} {f : Forest Estimated}

theorem insights_read (given : Quotation → Json) :
    Shipped.fullScan.insights t ⟨database, f.nodes (read given)⟩ =
      (f.labels.filter (·.node.operation = .fullScan)).map fun s =>
        Rule.fullScanInsight t (read given s) := by
  -- the rule looks at nothing below a node, so the bare nodes tell what it says
  have bare := Forest.map_bare_preorderAll (f := read given) (fun _ => rfl) f
  rw [Insight.insights_fullScan]
  have told := congrArg (fun nodes : List Node =>
    (nodes.filter (·.operation = .fullScan)).map (Rule.fullScanInsight t)) bare
  simp only [List.filter_map, List.map_map] at told
  exact told

theorem insights_quoted_iff : Shipped.fullScan.insights t ⟨database, f.nodes quoted⟩ =
      Shipped.fullScan.insights t ⟨database, f.nodes plain⟩ ↔
    ∀ s ∈ f.labels, s.node.operation = .fullScan → ¬ s.Loses := by
  rw [plain, quoted, insights_read, insights_read, List.map_inj_left]
  simp only [List.mem_filter, decide_eq_true_eq, and_imp]
  exact forall₃_congr fun s _ _ => fullScanInsight_quoted_iff

theorem categories_quoted_iff :
    (Shipped.fullScan.insights t ⟨database, f.nodes quoted⟩).map (·.category) =
      (Shipped.fullScan.insights t ⟨database, f.nodes plain⟩).map (·.category) ↔
    ∀ s ∈ f.labels, s.node.operation = .fullScan → s.Loses → IsConcern t s.plain := by
  rw [plain, quoted, insights_read, insights_read, List.map_map, List.map_map, List.map_inj_left]
  simp only [List.mem_filter, decide_eq_true_eq, and_imp]
  exact forall₃_congr fun s _ scan => category_quoted_iff scan

end Plans

end Estimated

end SqlReview.Plan
