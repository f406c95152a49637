import Mathlib.Data.List.Forall2
import SqlReview.Insight.Interpreter
import SqlReview.Proofs.Plan.Preorder

/-!
What the builtin rules find in a plan. They only add to a report, so each category lists what the
rules say in turn; a scan is in one category or the other by its estimate alone, whatever the order
in which the thresholds are asked for.
-/
namespace SqlReview.Insight

open Plan

section Reports

theorem Report.get_push (r : Report) (i : Insight) (c : Category) :
    (r.push i).get c = r.get c ++ if i.category = c then [i] else [] := by
  unfold push
  cases i.category <;> cases c <;> simp [get]

theorem Report.get_foldl_push (is : List Insight) (r : Report) (c : Category) :
    (is.foldl push r).get c = r.get c ++ is.filter (·.category = c) := by
  induction is generalizing r with
  | nil => simp
  | cons i is ih =>
    rw [List.foldl_cons, ih, get_push, List.append_assoc]
    by_cases h : i.category = c <;> simp [h]

theorem Report.ext_get {r r' : Report} (h : ∀ c, r.get c = r'.get c) : r = r' := by
  obtain ⟨majors, opportunities, practices⟩ := r
  obtain ⟨majors', opportunities', practices'⟩ := r'
  have first : majors = majors' := h .majorConcerns
  have second : opportunities = opportunities' := h .opportunities
  have third : practices = practices' := h .goodPractices
  rw [first, second, third]

end Reports

section ShippedRules

variable (t : Thresholds) (tree : Tree) (rules : List Shipped)

theorem Interpreter.ofShipped_eq : ofShipped t rules = ⟨rules.map Shipped.rule, t⟩ := by
  have added (earlier : List Rule) :
      rules.foldl (fun i s => withRule (Shipped.rule s) i) ⟨earlier, t⟩ =
        ⟨earlier ++ rules.map Shipped.rule, t⟩ := by
    induction rules generalizing earlier with
    | nil => rw [List.map_nil, List.append_nil, List.foldl_nil]
    | cons s rules ih =>
      rw [List.foldl_cons, withRule, ih, List.map_cons, List.append_assoc, List.singleton_append]
  exact added []

/-- As no shipped rule looks at the report, it holds what each says by itself. -/
theorem Interpreter.evaluate_ofShipped : (ofShipped t rules).evaluate tree =
    (rules.flatMap (Shipped.insights t tree)).foldl Report.push .empty := by
  rw [ofShipped_eq, evaluate, List.foldl_map, List.foldl_flatMap]
  rfl

theorem Interpreter.get_ofShipped (c : Category) : ((ofShipped t rules).evaluate tree).get c =
    (rules.flatMap (Shipped.insights t tree)).filter (·.category = c) := by
  have none : Report.empty.get c = [] := by cases c <;> rfl
  rw [evaluate_ofShipped, Report.get_foldl_push, none, List.nil_append]

end ShippedRules

section Scans

variable {t : Thresholds} {n : Node} {rows rows' : Nat}

/-- A full scan that may be large: nothing is known of its size, or it reaches a threshold. -/
def IsConcern (t : Thresholds) (n : Node) : Prop :=
  n.operation = .fullScan ∧ ∀ rows ∈ n.rows, min t.largeTable t.highRows ≤ rows

instance (t : Thresholds) : DecidablePred (IsConcern t) :=
  fun _ => inferInstanceAs (Decidable (_ ∧ _))

def highVolumeAdvice : Text := "Add an index on the filtered columns or narrow the query."

theorem isConcern_iff_of_rows (known : n.rows = some rows) : IsConcern t n ↔
    n.operation = .fullScan ∧ (t.largeTable ≤ rows ∨ t.highRows ≤ rows) := by
  simp only [IsConcern, known, Option.mem_some_iff, forall_eq']
  apply and_congr_right
  intro _
  omega

theorem fullScanInsight_eq (scan : n.operation = .fullScan) :
    Rule.fullScanInsight t n =
      if IsConcern t n then ⟨.majorConcerns, .warning, (Rule.fullScanInsight t n).message⟩
      else ⟨.opportunities, .info, (Rule.fullScanInsight t n).message⟩ := by
  cases known : n.rows with
  | none =>
    have concern : IsConcern t n := ⟨scan, by simp [known]⟩
    rw [if_pos concern]
    simp only [Rule.fullScanInsight, known]
    rfl
  | some rows =>
    simp only [isConcern_iff_of_rows known, scan, true_and]
    simp only [Rule.fullScanInsight, known]
    by_cases high : t.highRows ≤ rows
    · simp [high, warning]
    · by_cases large : t.largeTable ≤ rows <;> simp [high, large, warning, info]

theorem not_suffix_append {front last other : Text} (shorter : ¬ other <:+ last)
    (longer : ¬ last <:+ other) : ¬ other <:+ front ++ last := by
  intro h
  rcases List.suffix_or_suffix_of_suffix h (List.suffix_append front last) with h | h
  · exact shorter h
  · exact longer h

theorem highVolumeAdvice_suffix_iff :
    highVolumeAdvice <:+ (Rule.fullScanInsight t n).message ↔
      ∃ rows ∈ n.rows, t.highRows ≤ rows := by
  cases known : n.rows with
  | none =>
    simp only [Rule.fullScanInsight, known, warning, Option.not_mem_none, false_and, exists_false,
      iff_false]
    exact not_suffix_append (by decide) (by decide)
  | some rows =>
    simp only [Rule.fullScanInsight, known, Option.mem_some_iff, exists_eq_left']
    by_cases high : t.highRows ≤ rows
    · simp only [high, if_true, warning, iff_true]
      exact List.suffix_append _ _
    · by_cases large : t.largeTable ≤ rows
      · simp only [high, large, if_true, if_false, warning, iff_false]
        exact not_suffix_append (by decide) (by decide)
      · simp only [high, large, if_false, info, iff_false]
        exact not_suffix_append (by decide) (by decide)

theorem isConcern_iff_of_validate {config : Config} (valid : config.validate = .ok ())
    (scan : n.operation = .fullScan) (known : n.rows = some rows) :
    IsConcern config.thresholds n ↔ config.thresholds.largeTable ≤ rows := by
  have ordered : config.thresholds.largeTable ≤ config.thresholds.highRows := by
    unfold Config.validate at valid
    split at valid
    · cases valid
    · split at valid
      · cases valid
      · omega
  rw [isConcern_iff_of_rows known]
  simp only [scan, true_and]
  omega

/-- The same step with an estimate that is no lower, or with none as before. -/
structure Raised (n n' : Node) : Prop where
  operation : n'.operation = n.operation
  relation : n'.relation = n.relation
  unknown : n.rows = none → n'.rows = none
  known : ∀ rows ∈ n.rows, ∃ rows' ∈ n'.rows, rows ≤ rows'

theorem Raised.isConcern {n' : Node} (h : Raised n n') (concern : IsConcern t n) :
    IsConcern t n' := by
  refine ⟨h.operation.trans concern.1, ?_⟩
  intro rows' hrows'
  cases known : n.rows with
  | none =>
    rw [h.unknown known] at hrows'
    cases hrows'
  | some rows =>
    obtain ⟨more, hmore, le⟩ := h.known rows known
    have same : more = rows' := Option.mem_unique hmore hrows'
    have reached := concern.2 rows known
    omega

theorem concerns_raised {nodes nodes' : List Node} (h : List.Forall₂ Raised nodes nodes') :
    ((nodes.filter fun n => IsConcern t n).map Rule.tableName).Sublist
      ((nodes'.filter fun n => IsConcern t n).map Rule.tableName) := by
  induction h with
  | nil => exact List.Sublist.refl _
  | @cons n n' nodes nodes' first _ ih =>
    have name : Rule.tableName n' = Rule.tableName n := by
      unfold Rule.tableName
      rw [first.relation]
    by_cases concern : IsConcern t n
    · simp only [List.filter_cons, concern, first.isConcern concern, decide_true, if_true,
        List.map_cons, name]
      exact ih.cons_cons _
    · simp only [List.filter_cons, concern, decide_false, Bool.false_eq_true, if_false]
      split
      · exact ih.cons _
      · exact ih

end Scans

section Builtin

def findings (t : Thresholds) (nodes : List Node) : Report where
  majorConcerns := (nodes.filter fun n => IsConcern t n).map fun n =>
    ⟨.majorConcerns, .warning, (Rule.fullScanInsight t n).message⟩
  opportunities :=
    ((nodes.filter fun n => n.operation = .fullScan ∧ ¬ IsConcern t n).map fun n =>
      ⟨.opportunities, .info, (Rule.fullScanInsight t n).message⟩) ++
    ((if 2 ≤ nodes.countP (·.operation = .join) then
      [⟨.opportunities, .info, "Multiple join operations (" ++
        Text.ofNat (nodes.countP (·.operation = .join)) ++
        ") could be optimized by reordering joins."⟩] else []) ++
    if ∃ n ∈ nodes, n.operation = .sort then
      [⟨.opportunities, .info,
        "Sort operation detected. An index matching the ORDER BY columns could avoid it."⟩] else [])
  goodPractices :=
    (nodes.filter fun n => n.operation = .indexScan ∨ n.operation = .indexOnlyScan).map fun n =>
      ⟨.goodPractices, .success, (Rule.indexUsageInsight n).message⟩

variable {t : Thresholds} {tree : Tree}

theorem filter_uniform {is : List Insight} {d : Category} (h : ∀ i ∈ is, i.category = d)
    (c : Category) : is.filter (·.category = c) = if d = c then is else [] := by
  by_cases same : d = c
  · rw [if_pos same, List.filter_eq_self]
    intro i hi
    exact decide_eq_true ((h i hi).trans same)
  · rw [if_neg same, List.filter_eq_nil_iff]
    intro i hi e
    exact same ((h i hi).symm.trans (of_decide_eq_true e))

section Rules

variable (t : Thresholds) (tree : Tree)

theorem insights_fullScan : Shipped.fullScan.insights t tree =
    ((Node.preorderAll tree.roots).filter (·.operation = .fullScan)).map
      (Rule.fullScanInsight t) := by
  rw [Shipped.insights, Tree.nodes, Node.visit_eq_preorderAll]

theorem insights_joinOrder : Shipped.joinOrder.insights t tree =
    if 2 ≤ (Node.preorderAll tree.roots).countP (·.operation = .join) then
      [Rule.joinOrderInsight ((Node.preorderAll tree.roots).countP (·.operation = .join))]
    else [] := by
  rw [Shipped.insights, Tree.count, Tree.nodes, Node.visit_eq_preorderAll]

theorem insights_sort : Shipped.sort.insights t tree =
    if ∃ n ∈ Node.preorderAll tree.roots, n.operation = .sort then [Rule.sortInsight] else [] := by
  rw [Shipped.insights, Tree.contains, Tree.nodes, Node.visit_eq_preorderAll]
  simp

theorem insights_indexUsage : Shipped.indexUsage.insights t tree =
    ((Node.preorderAll tree.roots).filter fun n =>
      n.operation = .indexScan ∨ n.operation = .indexOnlyScan).map Rule.indexUsageInsight := by
  have reads (o : Operation) : o.usesIndex = decide (o = .indexScan ∨ o = .indexOnlyScan) := by
    cases o <;> rfl
  simp only [Shipped.insights, Tree.nodes, Node.visit_eq_preorderAll, reads]

theorem category_joinOrder :
    ∀ i ∈ Shipped.joinOrder.insights t tree, i.category = .opportunities := by
  rw [insights_joinOrder]
  split <;> simp [Rule.joinOrderInsight, info]

theorem category_sort : ∀ i ∈ Shipped.sort.insights t tree, i.category = .opportunities := by
  rw [insights_sort]
  split <;> simp [Rule.sortInsight, info]

theorem category_indexUsage :
    ∀ i ∈ Shipped.indexUsage.insights t tree, i.category = .goodPractices := by
  intro i hi
  obtain ⟨n, _, rfl⟩ := List.mem_map.1 hi
  rfl

end Rules

theorem filter_fullScanInsights (t : Thresholds) (nodes : List Node) :
    ((nodes.filter (·.operation = .fullScan)).map (Rule.fullScanInsight t)).filter
        (·.category = .majorConcerns) = (findings t nodes).majorConcerns ∧
    ((nodes.filter (·.operation = .fullScan)).map (Rule.fullScanInsight t)).filter
        (·.category = .opportunities) =
      ((nodes.filter fun n => n.operation = .fullScan ∧ ¬ IsConcern t n).map fun n =>
        ⟨.opportunities, .info, (Rule.fullScanInsight t n).message⟩) ∧
    ((nodes.filter (·.operation = .fullScan)).map (Rule.fullScanInsight t)).filter
        (·.category = .goodPractices) = [] := by
  unfold findings
  induction nodes with
  | nil => exact ⟨rfl, rfl, rfl⟩
  | cons n nodes ih =>
    by_cases scan : n.operation = .fullScan
    · have told := fullScanInsight_eq (t := t) scan
      by_cases concern : IsConcern t n
      · rw [if_pos concern] at told
        have category : (Rule.fullScanInsight t n).category = .majorConcerns := by rw [told]
        simp [scan, concern, category, ih, ← told]
      · rw [if_neg concern] at told
        have category : (Rule.fullScanInsight t n).category = .opportunities := by rw [told]
        simp [scan, concern, category, ih, ← told]
    · have concern : ¬ IsConcern t n := fun h => scan h.1
      simp [scan, concern, ih]

theorem Interpreter.evaluate_builtin (t : Thresholds) (tree : Tree) :
    (builtin t).evaluate tree = findings t (Node.preorderAll tree.roots) := by
  obtain ⟨concerns, hints, others⟩ := filter_fullScanInsights t (Node.preorderAll tree.roots)
  rw [← insights_fullScan t tree] at concerns hints others
  apply Report.ext_get
  intro c
  rw [builtin, get_ofShipped]
  simp only [List.flatMap_cons, List.flatMap_nil, List.filter_append, List.append_nil,
    filter_uniform (category_joinOrder t tree), filter_uniform (category_sort t tree),
    filter_uniform (category_indexUsage t tree)]
  cases c with
  | majorConcerns =>
    simp only [reduceCtorEq, if_false, List.append_nil, concerns]
    rfl
  | opportunities =>
    simp only [reduceCtorEq, if_false, if_true, List.append_nil, hints, insights_joinOrder,
      insights_sort]
    rfl
  | goodPractices =>
    simp only [reduceCtorEq, if_false, if_true, List.nil_append, others, insights_indexUsage]
    rfl

def tableConcern (table : Text) : Insight :=
  .warning .majorConcerns ("Table scan detected on '" ++ table ++
    "'. Consider adding indexes to improve performance.")

theorem fullScanInsight_unknown {n : Node} (unknown : n.rows = none) :
    Rule.fullScanInsight t n = tableConcern (Rule.tableName n) := by
  simp only [Rule.fullScanInsight, unknown]
  rfl

theorem Interpreter.tableConcern_mem_iff {table : Text}
    (unknown : ∀ n ∈ tree.nodes, n.rows = none) :
    tableConcern table ∈ ((builtin t).evaluate tree).majorConcerns ↔
      ∃ n ∈ tree.nodes, n.operation = .fullScan ∧ Rule.tableName n = table := by
  rw [Tree.nodes, Node.visit_eq_preorderAll] at unknown ⊢
  simp only [evaluate_builtin, findings, List.mem_map, List.mem_filter, decide_eq_true_eq]
  constructor
  · rintro ⟨n, ⟨hn, concern⟩, same⟩
    rw [fullScanInsight_unknown (unknown n hn)] at same
    have message := congrArg Insight.message same
    exact ⟨n, hn, concern.1, List.append_cancel_left (List.append_cancel_right message)⟩
  · rintro ⟨n, hn, scan, rfl⟩
    refine ⟨n, ⟨hn, scan, by simp [unknown n hn]⟩, ?_⟩
    rw [fullScanInsight_unknown (unknown n hn)]
    rfl

/-- The builtin rules tell of every full scan, as a concern where it may be large, of two joins or
more, of sorts, and of every read through an index, in the order in which the plan is visited. In a
valid configuration one threshold decides what is a concern, and higher estimates make no fewer. -/
theorem Interpreter.builtin_findings (t : Thresholds) (tree : Tree) :
    (builtin t).evaluate tree = findings t (Node.preorderAll tree.roots) ∧
      (∀ n : Node, n.operation = .fullScan →
        (highVolumeAdvice <:+ (Rule.fullScanInsight t n).message ↔
          ∃ rows ∈ n.rows, t.highRows ≤ rows)) ∧
      (∀ config : Config, config.validate = .ok () →
        ∀ (n : Node) (rows : Nat), n.operation = .fullScan → n.rows = some rows →
          (IsConcern config.thresholds n ↔ config.thresholds.largeTable ≤ rows)) ∧
      ∀ tree' : Tree,
        List.Forall₂ Raised (Node.preorderAll tree.roots) (Node.preorderAll tree'.roots) →
          (((Node.preorderAll tree.roots).filter fun n => IsConcern t n).map
              Rule.tableName).Sublist
            (((Node.preorderAll tree'.roots).filter fun n => IsConcern t n).map
              Rule.tableName) :=
  ⟨evaluate_builtin t tree, fun _ _ => highVolumeAdvice_suffix_iff,
    fun _ valid _ _ scan known => isConcern_iff_of_validate valid scan known,
    fun _ raised => concerns_raised raised⟩

def scanOf (table : Text) (rows : Option Nat) : Node :=
  ⟨.fullScan, "Seq Scan", some table, none, rows, []⟩

def ordersPlan (users : Nat) : Tree :=
  ⟨.postgres, [⟨.sort, "Sort", none, none, none, [⟨.join, "Hash Join", none, none, none,
    [scanOf "orders" none, ⟨.join, "Nested Loop", none, none, none,
      [scanOf "users" (some users),
        ⟨.indexScan, "Index Scan", some "items", some "items_pkey", some 1, []⟩]⟩]⟩]⟩]⟩

theorem Interpreter.builtin_findings_ordersPlan :
    ((builtin .default).evaluate (ordersPlan 999)).majorConcerns.map (·.message) =
        ["Table scan detected on 'orders'. Consider adding indexes to improve performance.".toList] ∧
      ((builtin .default).evaluate (ordersPlan 999)).opportunities.length = 3 ∧
      (highVolumeAdvice <:+
        (Rule.fullScanInsight .default (scanOf "users" (some 10000))).message) ∧
      Config.default.validate = .ok () ∧
      (IsConcern Config.default.thresholds (scanOf "users" (some 999)) ↔ 1000 ≤ 999) ∧
      (((Node.preorderAll (ordersPlan 999).roots).filter fun n => IsConcern .default n).map
          Rule.tableName).Sublist
        (((Node.preorderAll (ordersPlan 1000).roots).filter fun n => IsConcern .default n).map
          Rule.tableName) := by
  obtain ⟨report, wording, bound, rising⟩ := builtin_findings .default (ordersPlan 999)
  refine ⟨?_, ?_, ?_, rfl, bound .default rfl (scanOf "users" (some 999)) 999 rfl rfl, ?_⟩
  · rw [report]
    decide +kernel
  · rw [report]
    decide +kernel
  · exact (wording (scanOf "users" (some 10000)) rfl).2 ⟨10000, rfl, by decide⟩
  · have same {n n' : Node} (operation : n'.operation = n.operation)
        (relation : n'.relation = n.relation) (rows : n'.rows = n.rows) : Raised n n' :=
      ⟨operation, relation, fun h => rows.trans h, fun r hr => ⟨r, rows ▸ hr, Nat.le_refl r⟩⟩
    have users : Raised (scanOf "users" (some 999)) (scanOf "users" (some 1000)) :=
      ⟨rfl, rfl, nofun, fun r hr => ⟨1000, rfl, by cases hr; decide⟩⟩
    apply rising
    exact .cons (same rfl rfl rfl) (.cons (same rfl rfl rfl) (.cons (same rfl rfl rfl)
      (.cons (same rfl rfl rfl) (.cons users (.cons (same rfl rfl rfl) .nil)))))

end Builtin

end SqlReview.Insight
