import Mathlib.Algebra.GroupWithZero.Nat
import SqlReview.Proofs.Insight.Findings

/-!
Shipped rules that run one after the other over one table of insights. Each only adds to the table,
under the category of what it adds, so that a list of rules finds in every category what its parts
find one by one, and the order of the rules decides the order in a category and nothing else.
-/
namespace SqlReview.Insight

open Plan

/-- Categories with their insights, in the order in which the categories came in. -/
abbrev Entries := List (Category × List Insight)

def Entries.push : Entries → Insight → Entries
  | [], i => [(i.category, [i])]
  | (c, is) :: rest, i =>
    if c = i.category then (c, is ++ [i]) :: rest else (c, is) :: push rest i

/-- A rule at work on a table that other rules may have added to. -/
def Shipped.record (t : Thresholds) (tree : Tree) (entries : Entries) : Shipped → Entries
  | .sample => Rule.sampleInsights.foldl Entries.push entries
  | .fullScan => tree.nodes.foldl (fun entries n =>
      if n.operation = .fullScan then entries.push (Rule.fullScanInsight t n) else entries) entries
  | .joinOrder =>
    if 2 ≤ tree.count .join then entries.push (Rule.joinOrderInsight (tree.count .join))
    else entries
  | .sort => if tree.contains .sort then entries.push Rule.sortInsight else entries
  | .indexUsage => tree.nodes.foldl (fun entries n =>
      if n.operation.usesIndex then entries.push (Rule.indexUsageInsight n) else entries) entries

section Reports

variable (r : Report) (is : List Insight)

theorem Report.groups_push (i : Insight) : (r.push i).groups = Entries.push r.groups i := by
  obtain ⟨category, severity, message⟩ := i
  cases category <;> rfl

theorem Report.groups_foldl_push :
    (is.foldl push r).groups = is.foldl Entries.push r.groups :=
  (List.foldl_hom groups fun r i => (r.groups_push i).symm).symm

theorem Report.size_push (i : Insight) : (r.push i).size = r.size + 1 := by
  obtain ⟨category, severity, message⟩ := i
  cases category <;>
    simp only [size, groups, Category.all, push, get, List.map_cons, List.map_nil,
      List.foldr_cons, List.foldr_nil, List.length_append, List.length_singleton] <;>
    omega

theorem Report.size_foldl_push : (is.foldl push r).size = r.size + is.length := by
  induction is generalizing r with
  | nil => rfl
  | cons i is ih =>
    rw [List.foldl_cons, ih, size_push, List.length_cons]
    omega

end Reports

section Rules

variable (t : Thresholds) (tree : Tree)

/-- Whatever the table holds, a rule adds its insights to it and changes nothing else. -/
theorem Shipped.record_groups (r : Report) (rule : Shipped) :
    rule.record t tree r.groups = ((rule.insights t tree).foldl Report.push r).groups := by
  rw [Report.groups_foldl_push]
  cases rule with
  | sample => rfl
  | fullScan =>
    simp only [record, insights, List.foldl_map, List.foldl_filter, decide_eq_true_eq]
  | joinOrder =>
    simp only [record, insights]
    split <;> rfl
  | sort =>
    simp only [record, insights]
    split <;> rfl
  | indexUsage => simp only [record, insights, List.foldl_map, List.foldl_filter]

theorem Shipped.foldl_record_groups (rules : List Shipped) (r : Report) :
    rules.foldl (Shipped.record t tree) r.groups =
      ((rules.flatMap (Shipped.insights t tree)).foldl Report.push r).groups := by
  rw [List.foldl_flatMap]
  exact List.foldl_hom Report.groups fun r rule => rule.record_groups t tree r

end Rules

namespace Interpreter

variable (t : Thresholds) (tree : Tree)

theorem size_ofShipped (rules : List Shipped) : ((ofShipped t rules).evaluate tree).size =
    (rules.flatMap (Shipped.insights t tree)).length := by
  rw [evaluate_ofShipped, Report.size_foldl_push]
  exact Nat.zero_add _

/-- Rules that run after others find what they find alone, and it comes last in each category. A
run leaves all categories in reporting order, whatever the table held before, and another order of
the rules finds the same insights in each. -/
theorem evaluate_append :
    (∀ (first second : List Shipped) (c : Category),
      ((ofShipped t (first ++ second)).evaluate tree).get c =
        ((ofShipped t first).evaluate tree).get c ++ ((ofShipped t second).evaluate tree).get c) ∧
    (∀ (rules : List Shipped) (r : Report), rules.foldl (Shipped.record t tree) r.groups =
      Category.all.map fun c => (c, r.get c ++ ((ofShipped t rules).evaluate tree).get c)) ∧
    (∀ rules : List Shipped,
      ((ofShipped t rules).evaluate tree).groups =
        rules.foldl (Shipped.record t tree) (Category.all.map fun c => (c, [])) ∧
      ((ofShipped t rules).evaluate tree).groups.map Prod.fst =
        [.majorConcerns, .opportunities, .goodPractices] ∧
      ∀ group ∈ ((ofShipped t rules).evaluate tree).groups, ∀ i ∈ group.2, i.category = group.1) ∧
    (∀ rules others : List Shipped, rules.Perm others → ∀ c : Category,
      (((ofShipped t rules).evaluate tree).get c).Perm
        (((ofShipped t others).evaluate tree).get c)) ∧
    ∀ rules : List Shipped, ((ofShipped t rules).evaluate tree).size =
      (rules.map fun rule => ((ofShipped t [rule]).evaluate tree).size).sum := by
  have table (rules : List Shipped) (r : Report) : rules.foldl (Shipped.record t tree) r.groups =
      Category.all.map fun c => (c, r.get c ++ ((ofShipped t rules).evaluate tree).get c) := by
    rw [Shipped.foldl_record_groups, Report.groups]
    apply List.map_congr_left
    intro c _
    rw [Report.get_foldl_push, get_ofShipped]
  refine ⟨?_, table, ?_, ?_, ?_⟩
  · intro first second c
    rw [get_ofShipped, get_ofShipped, get_ofShipped, List.flatMap_append, List.filter_append]
  · intro rules
    refine ⟨(table rules .empty).symm, rfl, ?_⟩
    intro group hg i hi
    obtain ⟨c, _, rfl⟩ := List.mem_map.1 hg
    rw [get_ofShipped] at hi
    exact of_decide_eq_true (List.mem_filter.1 hi).2
  · intro rules others reordered c
    rw [get_ofShipped, get_ofShipped]
    exact (reordered.flatMap_right _).filter _
  · intro rules
    rw [size_ofShipped, List.length_flatMap]
    apply congrArg List.sum
    apply List.map_congr_left
    intro rule _
    rw [size_ofShipped, List.flatMap_singleton]

theorem evaluate_append_ordersPlan :
    ((ofShipped .default ([.sort, .sample] ++ [.fullScan])).evaluate (ordersPlan 999)).get
        .opportunities =
      ((ofShipped .default [.sort, .sample]).evaluate (ordersPlan 999)).get .opportunities ++
        ((ofShipped .default [.fullScan]).evaluate (ordersPlan 999)).get .opportunities ∧
      (((ofShipped .default [.sort, .fullScan]).evaluate (ordersPlan 999)).get .opportunities).Perm
        (((ofShipped .default [.fullScan, .sort]).evaluate (ordersPlan 999)).get .opportunities) ∧
      ((ofShipped .default [.sort, .fullScan]).evaluate (ordersPlan 999)).get .opportunities ≠
        ((ofShipped .default [.fullScan, .sort]).evaluate (ordersPlan 999)).get .opportunities ∧
      ((ofShipped .default [.sort, .fullScan, .sort]).evaluate (ordersPlan 999)).size =
        1 + (2 + 1) := by
  obtain ⟨appended, _, _, reordered, sizes⟩ := evaluate_append .default (ordersPlan 999)
  refine ⟨appended [.sort, .sample] [.fullScan] .opportunities, ?_, by decide +kernel, ?_⟩
  · exact reordered [.sort, .fullScan] [.fullScan, .sort] (List.Perm.swap ..) .opportunities
  · rw [sizes]
    decide +kernel

end Interpreter

end SqlReview.Insight
