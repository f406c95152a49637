import SqlReview.Proofs.Index.Grouping
import SqlReview.Proofs.Query.Nested

/-!
The column that a condition is taken to compare. Operators in letters are found inside words as
well, so a qualifier that holds one is cut before it, and a NOT before the operator passes for the
column. Where neither is the case the column is the one that is compared.
-/
namespace SqlReview.Index

open Query
open Query.Nested (Blanks Space)

section Runs

variable {run rest gap : Text}

theorem wordRuns_append (filled : run ≠ []) (word : ∀ c ∈ run, Text.isWord c = true)
    (after : Pattern.inWord rest.head? = false) :
    wordRuns (run ++ rest) = (run, rest) :: wordRuns rest := by
  induction run with
  | nil => exact absurd rfl filled
  | cons c run ih =>
    obtain ⟨first, word⟩ := List.forall_mem_cons.1 word
    cases run with
    | nil => simp [wordRuns, first, after]
    | cons d run =>
      have inside : Pattern.inWord (d :: run ++ rest).head? = true := word d List.mem_cons_self
      rw [List.cons_append, wordRuns, if_pos first, inside, ih (List.cons_ne_nil d run) word]

theorem wordRuns_marks_append (marks : ∀ c ∈ gap, Text.isWord c = false) (s : Text) :
    wordRuns (gap ++ s) = wordRuns s := by
  induction gap with
  | nil => rfl
  | cons c gap ih =>
    obtain ⟨first, marks⟩ := List.forall_mem_cons.1 marks
    simp [wordRuns, first, ih marks]

end Runs

section Start

variable {run start : Text}

/-- A start of the run, not empty, that an operator in letters follows within the run. -/
def BeforeOperator (run start : Text) : Prop :=
  start ≠ [] ∧ ∃ op ∈ letterOperators, start ++ op <+: run

structure CutsOff (run start : Text) : Prop where
  before : BeforeOperator run start
  longest : ∀ other, BeforeOperator run other → other.length ≤ start.length

theorem find?_reverse_range_eq_some {n k : Nat} {p : Nat → Bool}
    (h : (List.range n).reverse.find? p = some k) :
    k < n ∧ p k = true ∧ ∀ j, k < j → j < n → p j = false := by
  induction n with
  | zero => cases h
  | succ n ih =>
    rw [List.range_succ, List.reverse_append, List.reverse_singleton, List.singleton_append,
      List.find?_cons] at h
    split at h
    · rename_i here
      obtain rfl := Option.some.inj h
      exact ⟨Nat.lt_succ_self _, here, fun j _ _ => by omega⟩
    · rename_i here
      obtain ⟨lt, found, later⟩ := ih h
      refine ⟨Nat.lt_succ_of_lt lt, found, ?_⟩
      intro j above below
      by_cases same : j = n
      · rw [same, here]
      · exact later j above (by omega)

theorem beforeOperator_take_iff {n : Nat} (inside : n ≤ run.length) :
    BeforeOperator run (run.take n) ↔
      (0 < n && letterOperators.any fun op => op.isPrefixOf (run.drop n)) = true := by
  have after (op : Text) : run.take n ++ op <+: run ↔ op <+: run.drop n := by
    conv_lhs => rw [← List.take_append_drop n run, List.take_left' (by simp [inside])]
    exact List.prefix_append_right_inj _
  have filled : run.take n ≠ [] ↔ 0 < n := by
    rw [← List.length_pos_iff, List.length_take]
    omega
  simp only [BeforeOperator, after, filled, Bool.and_eq_true, decide_eq_true_eq, List.any_eq_true,
    List.isPrefixOf_iff_prefix]

theorem BeforeOperator.eq_take (h : BeforeOperator run start) :
    start = run.take start.length ∧ start.length < run.length := by
  obtain ⟨_, op, hop, rest, rfl⟩ := h
  have filled : 0 < op.length := (by decide : ∀ op ∈ letterOperators, 0 < op.length) op hop
  constructor
  · simp
  · simp only [List.length_append]
    omega

theorem CutsOff.unique {start' : Text} (h : CutsOff run start) (h' : CutsOff run start') :
    start = start' := by
  have same : start.length = start'.length :=
    Nat.le_antisymm (h'.longest _ h.before) (h.longest _ h'.before)
  rw [h.before.eq_take.1, h'.before.eq_take.1, same]

theorem cutsOff_of_eq_some (h : startBeforeOperator? run = some start) : CutsOff run start := by
  obtain ⟨n, found, rfl⟩ := Option.map_eq_some_iff.1 h
  obtain ⟨lt, here, later⟩ := find?_reverse_range_eq_some found
  refine ⟨(beforeOperator_take_iff (Nat.le_of_lt lt)).2 here, ?_⟩
  intro other hother
  obtain ⟨e, shorter⟩ := hother.eq_take
  rw [e] at hother
  have there := (beforeOperator_take_iff (Nat.le_of_lt shorter)).1 hother
  rw [List.length_take]
  by_contra longer
  rw [later other.length (by omega) shorter] at there
  cases there

/-- No operator in letters stands in the run after its first character. -/
def Unbroken (run : Text) : Prop := ∀ start, ¬ BeforeOperator run start

theorem startBeforeOperator?_eq_none_iff : startBeforeOperator? run = none ↔ Unbroken run := by
  constructor
  · intro h start before
    obtain ⟨e, shorter⟩ := before.eq_take
    rw [startBeforeOperator?, Option.map_eq_none_iff, List.find?_eq_none] at h
    rw [e] at before
    exact h start.length (by simpa using shorter)
      ((beforeOperator_take_iff (Nat.le_of_lt shorter)).1 before)
  · intro h
    rw [Option.eq_none_iff_forall_ne_some]
    intro start e
    exact h start (cutsOff_of_eq_some e).before

theorem startBeforeOperator?_eq_some_iff :
    startBeforeOperator? run = some start ↔ CutsOff run start := by
  refine ⟨cutsOff_of_eq_some, ?_⟩
  intro h
  cases e : startBeforeOperator? run with
  | none => exact absurd h.before (startBeforeOperator?_eq_none_iff.1 e start)
  | some other => rw [(cutsOff_of_eq_some e).unique h]

end Start

structure WordRun where
  text : Text
  filled : text ≠ []
  word : ∀ c ∈ text, Text.isWord c = true

inductive Sign where
  | equal
  | greater
  | less
  | atLeast
  | atMost
  | unequal
  | different
deriving Repr, DecidableEq

def Sign.text : Sign → Text
  | equal => "="
  | greater => ">"
  | less => "<"
  | atLeast => ">="
  | atMost => "<="
  | unequal => "!="
  | different => "<>"

inductive LetterOperator where
  | like
  | in_
deriving Repr, DecidableEq

def LetterOperator.text : LetterOperator → Text
  | like => "LIKE"
  | in_ => "IN"

/-- What stands between a column and the value it is compared with. -/
inductive Test where
  | bySign (gap : Blanks) (sign : Sign)
  | byLetters (gap : Space) (operator : LetterOperator)
  | negated (before gap : Space) (operator : LetterOperator)

namespace Test

def text : Test → Text
  | bySign gap sign => gap.text ++ sign.text
  | byLetters gap operator => gap.text ++ operator.text
  | negated before gap operator => before.text ++ ("NOT" ++ (gap.text ++ operator.text))

def isNegated : Test → Bool
  | negated .. => true
  | _ => false

end Test

structure ColumnCondition where
  qualifier : Option WordRun
  column : WordRun
  test : Test
  rest : Text

namespace ColumnCondition

def text (c : ColumnCondition) : Text :=
  (c.qualifier.map fun q => q.text ++ ['.']).getD [] ++ (c.column.text ++ (c.test.text ++ c.rest))

end ColumnCondition

section Reading

variable {run rest gap : Text}

def operatorNext (rest : Text) : Bool :=
  operators.any fun op => op.isPrefixOf (Text.trimLeft rest)

theorem conditionColumn?_run (filled : run ≠ []) (word : ∀ c ∈ run, Text.isWord c = true)
    (after : Pattern.inWord rest.head? = false) : conditionColumn? (run ++ rest) =
      if operatorNext rest then some run
      else (startBeforeOperator? run).or (conditionColumn? rest) := by
  unfold conditionColumn? operatorNext
  rw [wordRuns_append filled word after, List.findSome?_cons]
  by_cases next : (operators.any fun op => op.isPrefixOf (Text.trimLeft rest)) = true
  · simp only [next, if_true]
  · simp only [next]
    cases startBeforeOperator? run <;> rfl

theorem conditionColumn?_marks (marks : ∀ c ∈ gap, Text.isWord c = false) (s : Text) :
    conditionColumn? (gap ++ s) = conditionColumn? s := by
  unfold conditionColumn?
  rw [wordRuns_marks_append marks]

theorem operatorNext_blanks (gap : Blanks) (rest : Text) :
    operatorNext (gap.text ++ rest) = operatorNext rest := by
  unfold operatorNext
  rw [Text.trimLeft_blank_append gap.blank]

theorem conditionColumn?_blanks (gap : Blanks) (s : Text) :
    conditionColumn? (gap.text ++ s) = conditionColumn? s :=
  conditionColumn?_marks (fun c hc => Text.not_isWord_of_isBlank (gap.blank c hc)) s

theorem operatorNext_sign (s : Sign) (rest : Text) : operatorNext (s.text ++ rest) = true := by
  cases s <;> rfl

theorem operatorNext_letters (o : LetterOperator) (rest : Text) :
    operatorNext (o.text ++ rest) = true := by
  cases o <;> rfl

theorem operatorNext_not (rest : Text) : operatorNext ("NOT".toList ++ rest) = false := rfl

theorem operatorNext_dot (rest : Text) : operatorNext ('.' :: rest) = false := rfl

end Reading

section Shape

theorem Test.inWord_head (t : Test) (rest : Text) :
    Pattern.inWord (t.text ++ rest).head? = false := by
  cases t with
  | bySign gap sign =>
    obtain ⟨gap, blank⟩ := gap
    cases gap with
    | nil => cases sign <;> rfl
    | cons c gap => exact Text.not_isWord_of_isBlank (blank c List.mem_cons_self)
  | byLetters gap operator =>
    rw [text, List.append_assoc]
    exact Pattern.inWord_head_blank gap.filled gap.blank _
  | negated before gap operator =>
    rw [text, List.append_assoc]
    exact Pattern.inWord_head_blank before.filled before.blank _

theorem Test.operatorNext_text (t : Test) (rest : Text) :
    operatorNext (t.text ++ rest) = !t.isNegated := by
  cases t with
  | bySign gap sign =>
    rw [text, List.append_assoc, operatorNext_blanks, operatorNext_sign]
    rfl
  | byLetters gap operator =>
    rw [text, List.append_assoc, operatorNext_blanks, operatorNext_letters]
    rfl
  | negated before gap operator =>
    rw [text, List.append_assoc, operatorNext_blanks, List.append_assoc, operatorNext_not]
    rfl

/-- After a NOT the operator comes next, so the NOT is what it seems to compare. -/
theorem Test.conditionColumn?_negated (t : Test) (negated : t.isNegated = true) (rest : Text) :
    conditionColumn? (t.text ++ rest) = some "NOT".toList := by
  cases t with
  | bySign | byLetters => cases negated
  | negated before gap operator =>
    have after : Pattern.inWord (gap.text ++ (operator.text ++ rest)).head? = false :=
      Pattern.inWord_head_blank gap.filled gap.blank _
    rw [text, List.append_assoc, conditionColumn?_blanks, List.append_assoc, List.append_assoc,
      conditionColumn?_run (by decide) (List.all_eq_true.1 (by decide)) after, operatorNext_blanks,
      operatorNext_letters, if_pos rfl]

theorem WordRun.conditionColumn?_test (w : WordRun) (t : Test) (rest : Text) :
    conditionColumn? (w.text ++ (t.text ++ rest)) =
      some (if t.isNegated then (startBeforeOperator? w.text).getD "NOT" else w.text) := by
  rw [conditionColumn?_run w.filled w.word (t.inWord_head rest), t.operatorNext_text]
  cases negated : t.isNegated with
  | false => rfl
  | true =>
    rw [t.conditionColumn?_negated negated]
    cases startBeforeOperator? w.text <;> rfl

theorem ColumnCondition.conditionColumn?_text (c : ColumnCondition) : conditionColumn? c.text =
    some ((c.qualifier.bind fun q => startBeforeOperator? q.text).getD
      (if c.test.isNegated then (startBeforeOperator? c.column.text).getD "NOT"
      else c.column.text)) := by
  obtain ⟨qualifier, column, test, rest⟩ := c
  cases qualifier with
  | none => exact column.conditionColumn?_test test rest
  | some q =>
    have dot : ∀ c ∈ ['.'], Text.isWord c = false := List.forall_mem_singleton.2 rfl
    have marks := conditionColumn?_marks dot (column.text ++ (test.text ++ rest))
    rw [column.conditionColumn?_test] at marks
    simp only [text, Option.map_some, Option.getD_some, List.append_assoc]
    rw [conditionColumn?_run q.filled q.word rfl, List.singleton_append, operatorNext_dot]
    simp only [Bool.false_eq_true, if_false, Option.bind_some]
    rw [← List.singleton_append, marks]
    cases startBeforeOperator? q.text <;> rfl

end Shape

theorem get?_of_mem_candidates {facts : Facts} {c : Candidate} (h : c ∈ candidates facts) :
    ∃ rec, (Recommendations.ofFacts facts).get? c.table (indexName c.table c.column) = some rec ∧
      rec.columns = [c.column] := by
  rw [candidates_eq_stream] at h
  have known : c.pair ∈ (firsts Candidate.pair (stream facts)).map Candidate.pair :=
    mem_map_firsts.2 (List.mem_map_of_mem h)
  obtain ⟨first, hfirst, same⟩ := List.mem_map.1 known
  obtain ⟨table, column⟩ := Prod.mk.inj same
  have listed : first.entry ∈ Recommendations.toList ⟨grouped (stream facts)⟩ :=
    (perm_toList_grouped _).mem_iff.2 (List.mem_map_of_mem hfirst)
  refine ⟨first.entry.2.2, ?_, congrArg ([·]) column⟩
  rw [ofFacts_eq, ← table, ← column]
  exact (get?_eq_some_iff _).2 listed

theorem recommended_of_conditionColumn? {condition column : Text} (facts : Facts)
    (read : conditionColumn? condition = some column) :
    (conditionCandidates facts.tables condition = facts.tables.map fun table =>
      ⟨table, column, "Used in WHERE condition: " ++ condition⟩) ∧
    (condition ∈ facts.whereConditions → ∀ table ∈ facts.tables, ∃ rec,
      (Recommendations.ofFacts facts).get? table (indexName table column) = some rec ∧
        rec.columns = [column]) := by
  have told : conditionCandidates facts.tables condition = facts.tables.map fun table =>
      ⟨table, column, "Used in WHERE condition: " ++ condition⟩ := by
    rw [conditionCandidates, read]
  refine ⟨told, ?_⟩
  intro listed table htable
  have made : ⟨table, column, "Used in WHERE condition: " ++ condition⟩ ∈ candidates facts := by
    refine List.mem_append_left _ (List.mem_append_left _ (List.mem_flatMap.2 ⟨_, listed, ?_⟩))
    rw [told]
    exact List.mem_map_of_mem htable
  exact get?_of_mem_candidates made

/-- The column that is recommended for a condition on a column: that column, unless an operator in
letters stands in its qualifier or NOT stands before its own. Then it is the start of the qualifier,
or else that of the column, up to the last operator in it, or at last NOT itself. -/
theorem ColumnCondition.recommended (c : ColumnCondition) : ∃ column : Text,
    ((∀ q ∈ c.qualifier, Unbroken q.text) → c.test.isNegated = false → column = c.column.text) ∧
      (∀ q ∈ c.qualifier, ∀ start, CutsOff q.text start → column = start) ∧
      ((∀ q ∈ c.qualifier, Unbroken q.text) → c.test.isNegated = true →
        (∀ start, CutsOff c.column.text start → column = start) ∧
          (Unbroken c.column.text → column = "NOT".toList)) ∧
      ∀ facts : Facts,
        (conditionCandidates facts.tables c.text = facts.tables.map fun table =>
          ⟨table, column, "Used in WHERE condition: " ++ c.text⟩) ∧
        (c.text ∈ facts.whereConditions → ∀ table ∈ facts.tables, ∃ rec,
          (Recommendations.ofFacts facts).get? table (indexName table column) = some rec ∧
            rec.columns = [column]) := by
  have read := c.conditionColumn?_text
  have whole (h : ∀ q ∈ c.qualifier, Unbroken q.text) :
      (c.qualifier.bind fun q => startBeforeOperator? q.text) = none := by
    rw [Option.bind_eq_none_iff]
    exact fun q hq => startBeforeOperator?_eq_none_iff.2 (h q hq)
  refine ⟨_, ?_, ?_, ?_, fun facts => recommended_of_conditionColumn? facts read⟩
  · intro h negated
    rw [whole h, negated]
    rfl
  · intro q hq start h
    have cut : (c.qualifier.bind fun q => startBeforeOperator? q.text) = some start := by
      rw [Option.mem_def.1 hq]
      exact startBeforeOperator?_eq_some_iff.2 h
    rw [cut]
    rfl
  · intro h negated
    rw [whole h, negated]
    constructor
    · intro start h
      rw [startBeforeOperator?_eq_some_iff.2 h]
      rfl
    · intro h
      rw [startBeforeOperator?_eq_none_iff.2 h]
      rfl

def space : Space := ⟨⟨" ", List.forall_mem_singleton.2 rfl⟩, by decide⟩

def leftOut : ColumnCondition :=
  { qualifier := none
    column := ⟨"x", by decide, List.all_eq_true.1 (by decide)⟩
    test := .negated space space .in_
    rest := " (1)" }

def underMain : ColumnCondition :=
  { qualifier := some ⟨"MAIN", by decide, List.all_eq_true.1 (by decide)⟩
    column := ⟨"id", by decide, List.all_eq_true.1 (by decide)⟩
    test := .bySign space.toBlanks .equal
    rest := " 5" }

def underOrders : ColumnCondition :=
  { underMain with qualifier := some ⟨"orders", by decide, List.all_eq_true.1 (by decide)⟩ }

theorem ColumnCondition.recommended_forms :
    (conditionCandidates ["t"] underOrders.text =
        [⟨"t", "id", "Used in WHERE condition: orders.id = 5"⟩]) ∧
      (conditionCandidates ["t"] underMain.text =
        [⟨"t", "MA", "Used in WHERE condition: MAIN.id = 5"⟩]) ∧
      conditionCandidates ["t"] leftOut.text =
        [⟨"t", "NOT", "Used in WHERE condition: x NOT IN (1)"⟩] := by
  refine ⟨?_, ?_, ?_⟩
  · obtain ⟨column, plain, _, _, recommended⟩ := underOrders.recommended
    have whole : ∀ q ∈ underOrders.qualifier, Unbroken q.text := by
      intro q hq
      obtain rfl := Option.some.inj hq
      exact startBeforeOperator?_eq_none_iff.1 (by decide)
    rw [(recommended ⟨["t"], [], [], [], []⟩).1, plain whole rfl]
    rfl
  · obtain ⟨column, _, cut, _, recommended⟩ := underMain.recommended
    have start : CutsOff "MAIN".toList "MA" := startBeforeOperator?_eq_some_iff.1 (by decide)
    rw [(recommended ⟨["t"], [], [], [], []⟩).1, cut _ rfl _ start]
    rfl
  · obtain ⟨column, _, _, negated, recommended⟩ := leftOut.recommended
    have whole : Unbroken leftOut.column.text := startBeforeOperator?_eq_none_iff.1 (by decide)
    have unqualified : ∀ q ∈ leftOut.qualifier, Unbroken q.text := by simp [leftOut]
    rw [(recommended ⟨["t"], [], [], [], []⟩).1, (negated unqualified rfl).2 whole]
    rfl

theorem compared_column_missed : leftOut.text = "x NOT IN (1)" ∧ underMain.text = "MAIN.id = 5" ∧
    (Recommendations.ofFacts ⟨["t"], [], [leftOut.text, underMain.text], [], []⟩).toList.map
        (fun entry => entry.2.2.columns) = [["NOT".toList], ["MA".toList]] ∧
    ¬ ∀ (facts : Facts) (c : ColumnCondition), c.text ∈ facts.whereConditions →
      ∀ table ∈ facts.tables, ∃ entry ∈ (Recommendations.ofFacts facts).toList,
        entry.1 = table ∧ entry.2.2.columns = [c.column.text] := by
  refine ⟨by decide, by decide, by decide +kernel, ?_⟩
  intro compared
  exact absurd (compared ⟨["t"], [], [leftOut.text], [], []⟩ leftOut (by decide) "t" (by decide))
    (by decide +kernel)

end SqlReview.Index
