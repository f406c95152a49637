import SqlReview.Proofs.Plan.MySql.Documents

/-!
The tree of a document lists the steps of its block in their order, each table once, and it has as
many joins, sorts and other wrappers as the block.
-/
namespace SqlReview.Plan.MySql

section Order

theorem Step.node_children (s : Step) : s.node.children = [] := by
  cases s with
  | ordering filesort => cases filesort <;> rfl
  | _ => rfl

theorem Step.listing_above (s : Step) (children : List Node) :
    (s.above children).listing = s.node :: (children.map Node.listing).flatten := by
  have alone : (s.above children).bare = s.node := Node.bare_eq_self s.node_children
  rw [Node.listing_eq, alone]
  rfl

theorem listing_spine (first : Node) (before : List Node) :
    (spine first before).listing = List.replicate before.length Step.join.node ++
      (first.listing ++ (before.reverse.map Node.listing).flatten) := by
  induction before with
  | nil => simp [spine]
  | cons last before ih =>
    simp only [spine, Step.listing_above, List.map_cons, List.map_nil, List.flatten_cons,
      List.flatten_nil, ih, List.length_cons, List.replicate_succ, List.reverse_cons,
      List.map_append, List.flatten_append, List.append_nil, List.cons_append, List.append_assoc]

theorem Table.length_nodes (ts : List Table) : (Table.nodes ts).length = ts.length := by
  induction ts with
  | nil => rfl
  | cons t ts ih => rw [Table.nodes, List.length_cons, ih, List.length_cons]

theorem Step.listing_map_above (s : Step) (ns : List Node) :
    ((ns.map fun n => s.above [n]).map Node.listing) = (ns.map Node.listing).map (s.node :: ·) := by
  rw [List.map_map, List.map_map]
  refine List.map_congr_left fun n _ => ?_
  rw [Function.comp_apply, s.listing_above, List.map_singleton, List.flatten_singleton]
  rfl

mutual

theorem Block.listing_node (b : Block) : b.node.listing = b.steps.map Step.node := by
  match b with
  | .empty => rfl
  | .table t => exact t.listing_node
  | .loop first others =>
    rw [Block.node, listing_spine, List.reverse_reverse, List.length_reverse, Table.length_nodes,
      first.listing_node, Table.listing_nodes others, Block.steps]
    simp only [List.map_append, List.map_replicate, List.map_flatten]
  | .union parts =>
    rw [Block.node, Step.listing_above, Block.listing_nodes parts, Block.steps, List.map_cons,
      List.map_flatten]
  | .ordering filesort content =>
    rw [Block.node, Step.listing_above, List.map_singleton, List.flatten_singleton,
      content.listing_node, Block.steps, List.map_cons]
  | .grouping content =>
    rw [Block.node, Step.listing_above, List.map_singleton, List.flatten_singleton,
      content.listing_node, Block.steps, List.map_cons]
  | .distinct content =>
    rw [Block.node, Step.listing_above, List.map_singleton, List.flatten_singleton,
      content.listing_node, Block.steps, List.map_cons]

theorem Table.listing_node (t : Table) : t.node.listing = t.steps.map Step.node := by
  match t with
  | .mk access materialized attached =>
    have aside : (((Block.nodes attached).map fun n => Step.attached.above [n]).map
        Node.listing).flatten =
          ((Block.stepsEach attached).map (.attached :: ·)).flatten.map Step.node := by
      rw [Step.listing_map_above, Block.listing_nodes attached, List.map_flatten, List.map_map,
        List.map_map]
      rfl
    match materialized with
    | none =>
      rw [Table.node, Step.listing_above, List.nil_append, aside]
      rfl
    | some b =>
      rw [Table.node, Step.listing_above, List.map_append, List.flatten_append, aside]
      rw [List.map_singleton, List.flatten_singleton, Step.listing_above, List.map_singleton,
        List.flatten_singleton, b.listing_node]
      rw [Table.steps]
      simp only [List.map_cons, List.map_append, List.cons_append]

theorem Table.listing_nodes (ts : List Table) :
    (Table.nodes ts).map Node.listing = (Table.stepsEach ts).map (List.map Step.node) := by
  match ts with
  | [] => rfl
  | t :: ts =>
    rw [Table.nodes, List.map_cons, t.listing_node, Table.listing_nodes ts, Table.stepsEach,
      List.map_cons]

theorem Block.listing_nodes (bs : List Block) :
    (Block.nodes bs).map Node.listing = (Block.stepsEach bs).map (List.map Step.node) := by
  match bs with
  | [] => rfl
  | b :: bs =>
    rw [Block.nodes, List.map_cons, b.listing_node, Block.listing_nodes bs, Block.stepsEach,
      List.map_cons]

end

end Order

section Tables

def isTable (n : Node) : Bool := "table (".toList.isPrefixOf n.label

theorem Step.isTable_node (s : Step) : isTable s.node = s.table?.isSome := by
  cases s with
  | table access =>
    have labelled : "table (".toList <+: access.node.label :=
      ⟨access.type ++ ")".toList, (List.append_assoc ..).symm⟩
    exact List.isPrefixOf_iff_prefix.2 labelled
  | ordering filesort => cases filesort <;> decide +kernel
  | _ => decide +kernel

theorem filter_isTable (steps : List Step) : (steps.map Step.node).filter isTable =
    (steps.filterMap Step.table?).map Access.node := by
  induction steps with
  | nil => rfl
  | cons s steps ih =>
    rw [List.map_cons, List.filter_cons, s.isTable_node, List.filterMap_cons, ih]
    cases s <;> rfl

theorem filterMap_table?_attached (each : List (List Step)) :
    (each.map (Step.attached :: ·)).flatten.filterMap Step.table? =
      each.flatten.filterMap Step.table? := by
  induction each with
  | nil => rfl
  | cons steps each ih =>
    rw [List.map_cons, List.flatten_cons, List.flatten_cons, List.filterMap_append,
      List.filterMap_append, ih]
    rfl

mutual

theorem Block.filterMap_steps (b : Block) : b.steps.filterMap Step.table? = b.tables := by
  match b with
  | .empty => rfl
  | .table t => exact t.filterMap_steps
  | .loop first others =>
    have joins : (List.replicate others.length Step.join).filterMap Step.table? = [] := by
      rw [List.filterMap_eq_nil_iff]
      intro s hs
      rw [List.eq_of_mem_replicate hs]
      rfl
    rw [Block.steps, List.filterMap_append, List.filterMap_append, joins, first.filterMap_steps,
      Table.filterMap_stepsEach others]
    rfl
  | .union parts => exact Block.filterMap_stepsEach parts
  | .ordering filesort content => exact content.filterMap_steps
  | .grouping content => exact content.filterMap_steps
  | .distinct content => exact content.filterMap_steps

theorem Table.filterMap_steps (t : Table) : t.steps.filterMap Step.table? = t.tables := by
  match t with
  | .mk access none attached =>
    rw [Table.steps, List.nil_append, List.filterMap_cons, filterMap_table?_attached,
      Block.filterMap_stepsEach attached]
    rfl
  | .mk access (some b) attached =>
    rw [Table.steps, List.filterMap_cons, List.filterMap_append, filterMap_table?_attached,
      Block.filterMap_stepsEach attached, List.filterMap_cons, b.filterMap_steps]
    rfl

theorem Table.filterMap_stepsEach (ts : List Table) :
    (Table.stepsEach ts).flatten.filterMap Step.table? = Table.tablesAll ts := by
  match ts with
  | [] => rfl
  | t :: ts =>
    rw [Table.stepsEach, List.flatten_cons, List.filterMap_append, t.filterMap_steps,
      Table.filterMap_stepsEach ts, Table.tablesAll]

theorem Block.filterMap_stepsEach (bs : List Block) :
    (Block.stepsEach bs).flatten.filterMap Step.table? = Block.tablesAll bs := by
  match bs with
  | [] => rfl
  | b :: bs =>
    rw [Block.stepsEach, List.flatten_cons, List.filterMap_append, b.filterMap_steps,
      Block.filterMap_stepsEach bs, Block.tablesAll]

end

end Tables

section Counts

theorem operationOf_mem (covering : Bool) (accessType : Text) :
    operationOf covering accessType ∈
      [Operation.fullScan, .indexScan, .indexOnlyScan, .other] := by
  unfold operationOf
  simp only
  split
  · decide
  · split
    · cases covering <;> decide
    · decide

/-- Nothing else does what a singular step does; a table only reads. -/
theorem Step.operation_eq_iff {s : Step} (h : s ∈ singular) (s' : Step) :
    s'.node.operation = s.node.operation ↔ s' = s := by
  have tableless : ∀ s ∈ singular,
      s.node.operation ∉ [Operation.fullScan, .indexScan, .indexOnlyScan, .other] := by
    decide +kernel
  have apart : ∀ s' ∈ .empty :: .ordering false :: singular, ∀ s ∈ singular,
      s'.node.operation = s.node.operation → s' = s := by
    decide +kernel
  refine ⟨fun same => ?_, fun same => same ▸ rfl⟩
  cases s' with
  | table access =>
    have reads := operationOf_mem (access.covering.getD false) access.type
    rw [show operationOf _ _ = s.node.operation from same] at reads
    exact absurd reads (tableless s h)
  | ordering filesort => cases filesort <;> exact apart _ (by decide) s h same
  | _ => exact apart _ (by decide) s h same

end Counts

/-- The document of a block gives one tree. Its nodes are the steps of the block, its tables are
listed in the order of the document, and it has as many joins and wrappers of each kind as the
block; a loop of tables has one join less than tables. -/
theorem normalize_document (b : Block) :
    ∃ tree, normalize .mySql b.document = .ok tree ∧ tree.roots = [b.node] ∧
      tree.nodes.map Node.bare = b.steps.map Step.node ∧
      (tree.nodes.filter isTable).map Node.bare = b.tables.map Access.node ∧
      ∀ s ∈ Step.singular, tree.count s.node.operation = b.steps.count s := by
  have located : wrapping.unwrap b.document = .ok (.ofFields b.members) := by
    change wrapping.unwrap (.object [("query_block", .ofFields b.members)]) = _
    rw [Wrapping.unwrap]
    rfl
  have read : normalize .mySql b.document = .ok ⟨.mySql, [b.node]⟩ := by
    rw [normalize, MySql.read, located]
    change (readBlock (.ofFields b.members)).map _ = _
    rw [b.read]
    rfl
  have listed : (Tree.nodes ⟨.mySql, [b.node]⟩).map Node.bare = b.steps.map Step.node := by
    rw [Tree.nodes, Node.visit_eq_preorderAll, Node.map_bare_preorderAll, List.map_singleton,
      List.flatten_singleton, b.listing_node]
  refine ⟨_, read, rfl, listed, ?_, ?_⟩
  · rw [← b.filterMap_steps, ← filter_isTable, ← listed, List.filter_map]
    rfl
  · intro s hs
    have told := congrArg (List.countP fun n : Node => n.operation = s.node.operation) listed
    rw [List.countP_map, List.countP_map] at told
    refine told.trans (List.countP_congr fun s' _ => ?_)
    simp [Step.operation_eq_iff hs]

end SqlReview.Plan.MySql
