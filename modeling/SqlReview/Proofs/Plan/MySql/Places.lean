import SqlReview.Proofs.Plan.MySql.Documents

/-!
The places of a MySQL plan. At each of them a few members are looked up by name, what is found there
is read at a place of its own, and the nodes come from the nodes of these parts.
-/
namespace SqlReview.Plan.MySql

/-- The places of a document, by what is read there. -/
inductive Place where
  | block
  | ordering
  | grouping
  | distinct
  /-- The list of joined tables. -/
  | loop
  | entry
  | table
  /-- What a table was materialized from. -/
  | derived
  /-- The list of subqueries of a table. -/
  | attached
  | union
  /-- The list of the parts of a union. -/
  | specifications
  /-- An entry that holds a query block. -/
  | holder
  /-- Nothing is looked up here. -/
  | other
deriving DecidableEq

namespace Place

def ofKinds : List (Text × Place) :=
  [("ordering_operation", .ordering), ("grouping_operation", .grouping),
    ("duplicates_removal", .distinct), ("nested_loop", .loop), ("table", .table),
    ("union_result", .union)]

def upToPresent (v : Json) : List (Text × Place) → List (Text × Place)
  | [] => []
  | member :: members =>
    if (v.get? member.1).isSome then [member] else member :: upToPresent v members

/-- The members that are looked up at a place, with the places below them. -/
def members (p : Place) (v : Json) : List (Text × Place) :=
  match p with
  | .block | .grouping | .distinct => upToPresent v ofKinds
  | .ordering => ("using_filesort", .other) :: upToPresent v ofKinds
  | .table =>
    [("access_type", .other), ("using_index", .other), ("table_name", .other), ("key", .other),
      ("rows_examined_per_scan", .other), ("materialized_from_subquery", .derived),
      ("attached_subqueries", .attached)]
  | .union => [("query_specifications", .specifications)]
  | .entry => [("table", .table)]
  | .derived | .holder => [("query_block", .block)]
  | .loop | .attached | .specifications | .other => []

def item : Place → Place
  | .loop => .entry
  | .attached | .specifications => .holder
  | _ => .other

def under (v : Json) (members : List (Text × Place)) : List (Place × Json) :=
  members.filterMap fun member => (v.get? member.1).map (member.2, ·)

/-- What the reader goes on with, in its order. -/
def parts (p : Place) (v : Json) : List (Place × Json) :=
  under v (p.members v) ++ (v.items?.getD []).map (p.item, ·)

def wrap (p : Place) (v : Json) (n : Node) : Node :=
  match p with
  | .ordering => orderingNode v n
  | .grouping => wrapper .aggregate "grouping_operation" n
  | .distinct => wrapper .distinct "duplicates_removal" n
  | .derived => wrapper .materialize "materialized_from_subquery" n
  | .attached => wrapper .subquery "attached_subquery" n
  | _ => n

def read (p : Place) (v : Json) : Except ShapeError (List Node) :=
  match p with
  | .block | .ordering | .grouping | .distinct => (readBlock v).map fun n => [p.wrap v n]
  | .loop =>
    match v.items? with
    | none => .error .loopNotArray
    | some entries =>
      match readTables entries with
      | .error e => .error e
      | .ok [] => .error .loopEmpty
      | .ok (first :: others) => .ok [joinTables first others]
  | .entry => (v.get? "table").elim (.ok []) fun table => (readTable table).map ([·])
  | .table => (readTable v).map ([·])
  | .union =>
    ((v.getItems? "query_specifications").elim (.ok []) readBlocks).map fun blocks =>
      [{ Node.new .setOperation "union_result" with children := blocks }]
  | .attached | .specifications => (v.items?.elim (.ok []) readBlocks).map (List.map (p.wrap v))
  | .derived | .holder =>
    (v.get? "query_block").elim (.ok []) fun block =>
      (readBlock block).map fun n => [p.wrap v n]
  | .other => .ok []

def gather : List (Place × Json) → Except ShapeError (List Node)
  | [] => .ok []
  | (p, v) :: parts => (p.read v).bind fun ns => (gather parts).map (ns ++ ·)

/-- The nodes of a block, which has a node of its own if there is nothing in it. -/
def content (ns : List Node) : List Node := if ns = [] then [Node.new .other "query_block"] else ns

def build (p : Place) (v : Json) (ns : List Node) : Except ShapeError (List Node) :=
  match p with
  | .block | .ordering | .grouping | .distinct => .ok ((content ns).map (p.wrap v))
  | .loop =>
    match v.items?, ns with
    | none, _ => .error .loopNotArray
    | some _, [] => .error .loopEmpty
    | some _, first :: others => .ok [joinTables first others]
  | .table => .ok [tableNode v ns]
  | .union => .ok [{ Node.new .setOperation "union_result" with children := ns }]
  | _ => .ok (ns.map (p.wrap v))

section Gathering

variable {p : Place} {v : Json}

theorem gather_append (before after : List (Place × Json)) : gather (before ++ after) =
    (gather before).bind fun ns => (gather after).map (ns ++ ·) := by
  induction before with
  | nil =>
    change gather after = (gather after).map ([] ++ ·)
    cases gather after <;> rfl
  | cons part before ih =>
    obtain ⟨p, v⟩ := part
    rw [List.cons_append, gather, gather, ih]
    cases p.read v with
    | error e => rfl
    | ok ns =>
      cases gather before with
      | error e => rfl
      | ok ms => cases gather after <;> simp [Except.bind, Except.map]

theorem gather_singleton (p : Place) (v : Json) : gather [(p, v)] = p.read v := by
  rw [gather]
  cases p.read v <;> simp [gather, Except.bind, Except.map]

theorem gather_others (vs : List Json) : gather (vs.map (Place.other, ·)) = .ok [] := by
  induction vs with
  | nil => rfl
  | cons v vs ih =>
    rw [List.map_cons, gather, ih]
    rfl

theorem gather_entries (entries : List Json) :
    gather (entries.map (Place.entry, ·)) = readTables entries := by
  induction entries with
  | nil => rw [readTables]; rfl
  | cons entry entries ih =>
    rw [List.map_cons, gather, ih]
    cases h : entry.get? "table" with
    | none =>
      have skipped : readTables (entry :: entries) = readTables entries := by
        rw [readTables]
        split
        · rfl
        · simp_all
      simp only [read, h, skipped, Option.elim_none]
      cases readTables entries <;> rfl
    | some table =>
      rw [readTables_cons h]
      simp only [read, h, Option.elim_some]
      cases readTable table <;> rfl

theorem gather_holders (blocks : List Json) :
    gather (blocks.map (Place.holder, ·)) = readBlocks blocks := by
  induction blocks with
  | nil => rw [readBlocks]; rfl
  | cons entry blocks ih =>
    rw [List.map_cons, gather, ih]
    cases h : entry.get? "query_block" with
    | none =>
      have skipped : readBlocks (entry :: blocks) = readBlocks blocks := by
        rw [readBlocks]
        split
        · rfl
        · simp_all
      simp only [read, h, skipped, Option.elim_none]
      cases readBlocks blocks <;> rfl
    | some block =>
      rw [readBlocks_cons h]
      simp only [read, h, Option.elim_some, wrap]
      cases readBlock block <;> rfl

theorem gather_parts_of_item (h : p.item = .other) :
    gather (p.parts v) = gather (under v (p.members v)) := by
  rw [parts, h, gather_append, gather_others]
  cases gather (under v (p.members v)) <;> simp [Except.bind, Except.map]

theorem under_upToPresent_of_some {member : Text × Place} {w : Json}
    (h : v.get? member.1 = some w) (members : List (Text × Place)) :
    under v (upToPresent v (member :: members)) = [(member.2, w)] := by
  rw [upToPresent, if_pos (by rw [h]; rfl), under, List.filterMap_cons, h]
  rfl

theorem under_upToPresent_of_none {member : Text × Place} (h : v.get? member.1 = none)
    (members : List (Text × Place)) : under v (upToPresent v (member :: members)) =
      under v (upToPresent v members) := by
  rw [upToPresent, if_neg (by rw [h]; simp), under, List.filterMap_cons, h]
  rfl

theorem content_ofKinds (v : Json) :
    (gather (under v (upToPresent v ofKinds))).map content = (readBlock v).map ([·]) := by
  have single (r : Except ShapeError Node) (f : Node → Node) :
      (r.map fun n => [f n]).map content = (r.map f).map ([·]) := by
    cases r <;> rfl
  rw [readBlock_eq, ofKinds]
  cases hordering : v.get? "ordering_operation" with
  | some ordering =>
    rw [under_upToPresent_of_some hordering, gather_singleton]
    exact single ..
  | none =>
  rw [under_upToPresent_of_none hordering]
  cases hgrouping : v.get? "grouping_operation" with
  | some grouping =>
    rw [under_upToPresent_of_some hgrouping, gather_singleton]
    exact single ..
  | none =>
  rw [under_upToPresent_of_none hgrouping]
  cases hdistinct : v.get? "duplicates_removal" with
  | some removal =>
    rw [under_upToPresent_of_some hdistinct, gather_singleton]
    exact single ..
  | none =>
  rw [under_upToPresent_of_none hdistinct]
  cases hloop : v.get? "nested_loop" with
  | some loop =>
    rw [under_upToPresent_of_some hloop, gather_singleton]
    cases loop with
    | array entries =>
      simp only [read, Json.items?]
      rcases readTables entries with _ | _ | _ <;> rfl
    | _ => rfl
  | none =>
  rw [under_upToPresent_of_none hloop]
  cases htable : v.get? "table" with
  | some table =>
    rw [under_upToPresent_of_some htable, gather_singleton]
    change ((readTable table).map ([·])).map content = (readTable table).map ([·])
    cases readTable table <;> rfl
  | none =>
  rw [under_upToPresent_of_none htable]
  cases hunion : v.get? "union_result" with
  | some union =>
    rw [under_upToPresent_of_some hunion, gather_singleton]
    simp only [read]
    cases union.getItems? "query_specifications" with
    | none => rfl
    | some parts =>
      simp only [Option.elim_some]
      cases readBlocks parts <;> rfl
  | none =>
    rw [under_upToPresent_of_none hunion]
    rfl

theorem gather_under_cons (member : Text × Place) (members : List (Text × Place)) :
    gather (under v (member :: members)) =
      ((v.get? member.1).elim (.ok []) member.2.read).bind fun ns =>
        (gather (under v members)).map (ns ++ ·) := by
  rw [under, List.filterMap_cons]
  cases v.get? member.1 with
  | none =>
    change gather (under v members) = (gather (under v members)).map ([] ++ ·)
    cases gather (under v members) <;> rfl
  | some w => rfl

/-- What is looked up only for the value itself adds no nodes. -/
theorem gather_under_other (name : Text) (members : List (Text × Place)) :
    gather (under v ((name, .other) :: members)) = gather (under v members) := by
  rw [gather_under_cons]
  cases v.get? name <;> cases gather (under v members) <;> rfl

theorem gather_under_singleton (member : Text × Place) :
    gather (under v [member]) = (v.get? member.1).elim (.ok []) member.2.read := by
  rw [gather_under_cons]
  cases (v.get? member.1).elim (Except.ok []) member.2.read <;>
    simp [under, gather, Except.bind, Except.map]

theorem gather_items (q : Place) (h : p.item = q) (empty : p.members v = []) :
    gather (p.parts v) = gather ((v.items?.getD []).map (q, ·)) := by
  rw [parts, empty, h]
  rfl

theorem gather_table (v : Json) : gather (Place.table.parts v) =
    (readMaterialized v).bind fun materialized =>
      (readAttached v).map fun attached => materialized ++ attached := by
  have derived : readMaterialized v =
      (v.get? "materialized_from_subquery").elim (.ok []) Place.derived.read := by
    unfold readMaterialized
    cases v.get? "materialized_from_subquery" with
    | none => rfl
    | some subquery =>
      simp only [Option.bind_some, Option.elim_some, read]
      cases subquery.get? "query_block" <;> rfl
  have attached : readAttached v =
      (v.get? "attached_subqueries").elim (.ok []) Place.attached.read := by
    unfold readAttached Json.getItems?
    cases v.get? "attached_subqueries" with
    | none => rfl
    | some subqueries =>
      simp only [Option.bind_some, Option.elim_some, read]
      cases subqueries.items? <;> rfl
  rw [gather_parts_of_item rfl, members]
  iterate 5 rw [gather_under_other]
  rw [gather_under_cons, gather_under_singleton, derived, attached]

/-- What is read at a place comes from what is read at its parts. -/
theorem read_eq (p : Place) (v : Json) : p.read v = (gather (p.parts v)).bind (p.build v) := by
  have block (r : Except ShapeError (List Node)) (h : r.map content = (readBlock v).map ([·])) :
      (readBlock v).map (fun n => [p.wrap v n]) =
        r.bind fun ns => .ok ((content ns).map (p.wrap v)) := by
    have mapped := congrArg (Except.map (List.map (p.wrap v))) h
    cases r <;> cases hb : readBlock v <;> rw [hb] at mapped <;> exact mapped.symm
  have each (r : Except ShapeError (List Node)) :
      r.map (List.map (p.wrap v)) = r.bind fun ns => .ok (ns.map (p.wrap v)) := by
    cases r <;> rfl
  have whole (r : Except ShapeError (List Node)) : (r.bind fun ns => .ok (ns.map id)) = r := by
    cases r <;> simp [Except.bind]
  cases p with
  | block | grouping | distinct =>
    rw [gather_parts_of_item rfl]
    exact block _ (content_ofKinds v)
  | ordering =>
    rw [gather_parts_of_item rfl, members, gather_under_other]
    exact block _ (content_ofKinds v)
  | loop =>
    rw [gather_items .entry rfl rfl, gather_entries, read]
    unfold build
    cases v.items? with
    | none => rw [Option.getD_none, readTables]; rfl
    | some entries =>
      simp only [Option.getD_some]
      rcases readTables entries with _ | _ | _ <;> rfl
  | entry =>
    rw [gather_parts_of_item rfl, members, gather_under_singleton]
    exact (whole _).symm
  | table =>
    rw [gather_table, read, readTable_eq]
    cases readMaterialized v <;> cases readAttached v <;> rfl
  | union =>
    rw [gather_parts_of_item rfl, members, gather_under_singleton, read, Json.getItems?]
    cases v.get? "query_specifications" with
    | none => rfl
    | some specifications =>
      simp only [Option.bind_some, Option.elim_some, read]
      cases specifications.items? with
      | none => rfl
      | some parts =>
        have plain : Place.specifications.wrap specifications = id := rfl
        rw [Option.elim_some, plain, List.map_id_fun]
        cases readBlocks parts <;> rfl
  | attached | specifications =>
    rw [gather_items .holder rfl rfl, gather_holders, read]
    cases v.items? with
    | none => rw [Option.elim_none, Option.getD_none, readBlocks]; rfl
    | some blocks => exact each _
  | derived | holder =>
    rw [gather_parts_of_item rfl, members, gather_under_singleton, read]
    cases v.get? "query_block" with
    | none => rfl
    | some block =>
      simp only [Option.elim_some, read]
      cases readBlock block <;> rfl
  | other =>
    rw [gather_parts_of_item rfl]
    rfl

end Gathering

end Place

end SqlReview.Plan.MySql
