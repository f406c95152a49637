import Mathlib.Data.Option.Basic
import Mathlib.Logic.Relation
import SqlReview.Proofs.Insight.Findings
import SqlReview.Proofs.Plan.MySql.Places
import SqlReview.Proofs.Plan.Wrappings

/-!
A plan of MySQL is read as a whole or not at all. The only fault is a list of joined tables that
cannot be read, wherever it is come to, and what is not looked up at its place does not count.
-/
namespace SqlReview.Plan.MySql

open Insight (Interpreter)
open Wrapping (unwrap_of_member unwrap_of_column unwrap_of_none unwrap_of_text)

namespace Place

def Goes (s t : Place × Json) : Prop := t ∈ s.1.parts s.2

/-- The second is the first or is come to from it, at any depth. -/
def Reaches : Place × Json → Place × Json → Prop := Relation.ReflTransGen Goes

end Place

/-- A list of joined tables that cannot be read, and its fault. -/
inductive BadLoop : Json → ShapeError → Prop
  | notArray {loop : Json} (other : loop.items? = none) : BadLoop loop .loopNotArray
  | noTable {entries : List Json} (bare : ∀ entry ∈ entries, entry.get? "table" = none) :
      BadLoop (.array entries) .loopEmpty

namespace Place

section Faults

variable {p q : Place} {v w loop : Json} {e : ShapeError} {entries : List Json}

theorem weight_of_goes (h : Goes (p, v) (q, w)) : w.weight < v.weight := by
  rcases List.mem_append.1 h with h | h
  · obtain ⟨member, -, h⟩ := List.mem_filterMap.1 h
    obtain ⟨_, found, h⟩ := Option.map_eq_some_iff.1 h
    cases h
    exact Json.weight_get?_lt found
  · obtain ⟨_, hm, h⟩ := List.mem_map.1 h
    cases h
    cases v with
    | array items => exact Json.weight_lt_of_mem hm
    | _ => cases hm

theorem exists_of_gather_error {parts : List (Place × Json)} (h : gather parts = .error e) :
    ∃ part ∈ parts, part.1.read part.2 = .error e := by
  induction parts with
  | nil => cases h
  | cons part parts ih =>
    obtain ⟨p, v⟩ := part
    rw [gather] at h
    cases here : p.read v with
    | error e' =>
      rw [here] at h
      cases h
      exact ⟨_, List.mem_cons_self, here⟩
    | ok ns =>
      cases rest : gather parts with
      | error e' =>
        rw [here, rest] at h
        cases h
        obtain ⟨part, hm, bad⟩ := ih rest
        exact ⟨part, List.mem_cons_of_mem _ hm, bad⟩
      | ok ms =>
        rw [here, rest] at h
        cases h

theorem gather_error_of_mem {parts : List (Place × Json)} {part : Place × Json}
    (h : part ∈ parts) (bad : part.1.read part.2 = .error e) : ∃ e', gather parts = .error e' := by
  obtain ⟨before, after, rfl⟩ := List.append_of_mem h
  obtain ⟨p, v⟩ := part
  rw [gather_append, gather, bad]
  cases gather before with
  | error e' => exact ⟨e', rfl⟩
  | ok ns => exact ⟨e, rfl⟩

theorem readTables_eq_nil_iff : readTables entries = .ok [] ↔
    ∀ entry ∈ entries, entry.get? "table" = none := by
  rw [← gather_entries]
  induction entries with
  | nil => exact iff_of_true rfl (List.forall_mem_nil _)
  | cons entry entries ih =>
    rw [List.map_cons, gather, List.forall_mem_cons, ← ih]
    cases h : entry.get? "table" with
    | none =>
      simp only [read, h, Option.elim_none]
      cases gather (entries.map (Place.entry, ·)) <;> simp [Except.bind, Except.map]
    | some table =>
      simp only [read, h, Option.elim_some]
      cases readTable table <;> cases gather (entries.map (Place.entry, ·)) <;>
        simp [Except.bind, Except.map]

theorem read_of_badLoop (bad : BadLoop loop e) : Place.loop.read loop = .error e := by
  cases bad with
  | notArray other => rw [read, other]
  | noTable bare => simp only [read, Json.items?, readTables_eq_nil_iff.2 bare]

theorem read_error (h : p.read v = .error e) :
    (∃ t, Goes (p, v) t ∧ t.1.read t.2 = .error e) ∨ p = .loop ∧ BadLoop v e := by
  rw [read_eq] at h
  cases parts : gather (p.parts v) with
  | error e' =>
    rw [parts] at h
    cases h
    exact .inl (exists_of_gather_error parts)
  | ok ns =>
    rw [parts] at h
    change p.build v ns = .error e at h
    cases p with
    | loop =>
      refine .inr ⟨rfl, ?_⟩
      cases v with
      | array entries =>
        cases ns with
        | nil =>
          cases h
          rw [gather_items .entry rfl rfl, gather_entries] at parts
          exact .noTable (readTables_eq_nil_iff.1 parts)
        | cons n ns => cases h
      | _ =>
        cases h
        exact .notArray rfl
    | _ => cases h

theorem read_error_of_goes {t : Place × Json} (h : Goes (p, v) t)
    (bad : t.1.read t.2 = .error e) : ∃ e', p.read v = .error e' := by
  obtain ⟨e', parts⟩ := gather_error_of_mem h bad
  exact ⟨e', by rw [read_eq, parts]; rfl⟩

theorem reaches_of_read_error (h : p.read v = .error e) :
    ∃ loop, Reaches (p, v) (.loop, loop) ∧ BadLoop loop e := by
  induction hn : v.weight using Nat.strongRecOn generalizing p v with
  | ind n ih =>
    obtain ⟨⟨q, w⟩, goes, below⟩ | ⟨rfl, bad⟩ := read_error h
    · obtain ⟨loop, reaches, bad⟩ := ih w.weight (hn ▸ weight_of_goes goes) below rfl
      exact ⟨loop, .head goes reaches, bad⟩
    · exact ⟨v, .refl, bad⟩

theorem read_error_of_reaches {s : Place × Json} (h : Reaches s (.loop, loop))
    (bad : BadLoop loop e) : ∃ e', s.1.read s.2 = .error e' := by
  induction h using Relation.ReflTransGen.head_induction_on with
  | refl => exact ⟨e, read_of_badLoop bad⟩
  | head goes _ ih =>
    obtain ⟨e', below⟩ := ih
    exact read_error_of_goes goes below

end Faults

end Place

/-- A document at a place with one member changed, added or removed that is not looked up there, or
with several such changes, at any depth. -/
inductive Edited : Place → Json → Json → Prop
  | unread {p : Place} {name : Text} {fields fields' : Json.Fields}
      (unread : name ∉ (p.members (.object fields)).map Prod.fst)
      (others : ∀ other ≠ name,
        (Json.object fields').get? other = (Json.object fields).get? other) :
      Edited p (.object fields) (.object fields')
  | member {p q : Place} {name : Text} {fields fields' : Json.Fields} {v w : Json}
      (known : (name, q) ∈ p.members (.object fields))
      (before : (Json.object fields).get? name = some v)
      (after : (Json.object fields').get? name = some w)
      (others : ∀ other ≠ name,
        (Json.object fields').get? other = (Json.object fields).get? other)
      (edited : Edited q v w) : Edited p (.object fields) (.object fields')
  | item {p : Place} {before after : List Json} {v w : Json} (edited : Edited p.item v w) :
      Edited p (.array (before ++ v :: after)) (.array (before ++ w :: after))
  | refl {p : Place} (v : Json) : Edited p v v
  | trans {p : Place} {u v w : Json} (first : Edited p u v) (second : Edited p v w) : Edited p u w

namespace Place

/-- Two values that no reader tells apart at a place. -/
structure Alike (p : Place) (v w : Json) : Prop where
  read : p.read v = p.read w
  text : v.text? = w.text?
  flag : v.flag? = w.flag?
  rows : readRows? (some v) = readRows? (some w)

section Edits

variable {p : Place} {v w : Json}

theorem Alike.refl (p : Place) (v : Json) : Alike p v v := ⟨rfl, rfl, rfl, rfl⟩

theorem Alike.trans {u : Json} (h : Alike p u v) (h' : Alike p v w) : Alike p u w :=
  ⟨h.read.trans h'.read, h.text.trans h'.text, h.flag.trans h'.flag, h.rows.trans h'.rows⟩

def Agree (v w : Json) (members : List (Text × Place)) : Prop :=
  ∀ member ∈ members, Option.Rel (Alike member.2) (v.get? member.1) (w.get? member.1)

theorem isSome_eq_of_rel {a b : Option Json} (h : Option.Rel (Alike p) a b) :
    a.isSome = b.isSome := by
  cases h <;> rfl

theorem elim_read_of_rel {a b : Option Json} (h : Option.Rel (Alike p) a b) :
    a.elim (.ok []) p.read = b.elim (.ok []) p.read := by
  cases h with
  | some h => exact h.read
  | none => rfl

theorem upToPresent_congr {members : List (Text × Place)}
    (same : Agree v w (upToPresent v members)) : upToPresent w members = upToPresent v members := by
  induction members with
  | nil => rfl
  | cons member members ih =>
    rw [upToPresent] at same ⊢
    rw [upToPresent]
    by_cases present : (v.get? member.1).isSome
    · rw [if_pos present] at same ⊢
      rw [if_pos (isSome_eq_of_rel (same _ List.mem_cons_self) ▸ present)]
    · rw [if_neg present] at same ⊢
      rw [if_neg (isSome_eq_of_rel (same _ List.mem_cons_self) ▸ present),
        ih fun m hm => same m (List.mem_cons_of_mem _ hm)]

theorem members_congr (same : Agree v w (p.members v)) : p.members w = p.members v := by
  cases p with
  | block | grouping | distinct => exact upToPresent_congr same
  | ordering =>
    exact congrArg (List.cons _) (upToPresent_congr fun m hm => same m (List.mem_cons_of_mem _ hm))
  | _ => rfl

theorem gather_under_congr {members : List (Text × Place)} (same : Agree v w members) :
    gather (under v members) = gather (under w members) := by
  induction members with
  | nil => rfl
  | cons member members ih =>
    rw [gather_under_cons, gather_under_cons, elim_read_of_rel (same _ List.mem_cons_self),
      ih fun m hm => same m (List.mem_cons_of_mem _ hm)]

theorem gather_map_congr {vs ws : List Json} (same : List.Forall₂ (Alike p) vs ws) :
    gather (vs.map (p, ·)) = gather (ws.map (p, ·)) := by
  induction same with
  | nil => rfl
  | cons here _ ih => rw [List.map_cons, List.map_cons, gather, gather, here.read, ih]

theorem text_congr {a b : Option Json} (same : Option.Rel (Alike p) a b) :
    a.bind Json.text? = b.bind Json.text? := by
  cases same with
  | some h => exact h.text
  | none => rfl

theorem flag_congr {a b : Option Json} (same : Option.Rel (Alike p) a b) :
    a.bind Json.flag? = b.bind Json.flag? := by
  cases same with
  | some h => exact h.flag
  | none => rfl

theorem rows_congr {a b : Option Json} (same : Option.Rel (Alike p) a b) :
    readRows? a = readRows? b := by
  cases same with
  | some h => exact h.rows
  | none => rfl

theorem orderingNode_congr (same : Agree v w (Place.ordering.members v)) (content : Node) :
    orderingNode v content = orderingNode w content := by
  have filesort : v.getFlag? "using_filesort" = w.getFlag? "using_filesort" :=
    flag_congr (same _ (.head _))
  rw [orderingNode, orderingNode, filesort]

theorem tableNode_congr (same : Agree v w (Place.table.members v)) (children : List Node) :
    tableNode v children = tableNode w children := by
  have access : v.getText? "access_type" = w.getText? "access_type" :=
    text_congr (same _ (.head _))
  have covering : v.getFlag? "using_index" = w.getFlag? "using_index" :=
    flag_congr (same _ (.tail _ (.head _)))
  have name : v.getText? "table_name" = w.getText? "table_name" :=
    text_congr (same _ (.tail _ (.tail _ (.head _))))
  have key : v.getText? "key" = w.getText? "key" :=
    text_congr (same _ (.tail _ (.tail _ (.tail _ (.head _)))))
  have rows : readRows? (v.get? "rows_examined_per_scan") =
      readRows? (w.get? "rows_examined_per_scan") :=
    rows_congr (same _ (.tail _ (.tail _ (.tail _ (.tail _ (.head _))))))
  rw [tableNode, tableNode, access, covering, name, key, rows]

theorem build_congr (same : Agree v w (p.members v))
    (listed : v.items? = none ↔ w.items? = none) : p.build v = p.build w := by
  cases p with
  | ordering =>
    have wrapped : Place.ordering.wrap v = Place.ordering.wrap w :=
      funext (orderingNode_congr same)
    funext ns
    rw [build, build, wrapped]
  | loop =>
    funext ns
    unfold build
    cases hv : v.items? with
    | none => rw [listed.1 hv]
    | some entries =>
      cases hw : w.items? with
      | none =>
        rw [listed.2 hw] at hv
        cases hv
      | some others => cases ns <;> rfl
  | table =>
    funext ns
    rw [build, build, tableNode_congr same]
  | _ => rfl

/-- Only what is looked up at a place is read there. -/
theorem read_congr (same : Agree v w (p.members v))
    (items : Option.Rel (List.Forall₂ (Alike p.item)) v.items? w.items?) :
    p.read v = p.read w := by
  have each {a b : Option (List Json)} (h : Option.Rel (List.Forall₂ (Alike p.item)) a b) :
      gather ((a.getD []).map (p.item, ·)) = gather ((b.getD []).map (p.item, ·)) ∧
        (a = none ↔ b = none) := by
    cases h with
    | some same => exact ⟨gather_map_congr same, by simp⟩
    | none => exact ⟨rfl, Iff.rfl⟩
  obtain ⟨itemwise, listed⟩ := each items
  rw [read_eq, read_eq, parts, parts, gather_append, gather_append, members_congr same,
    gather_under_congr same, itemwise, build_congr same listed]

theorem nodup_members (p : Place) (v : Json) : ((p.members v).map Prod.fst).Nodup := by
  have kept (members : List (Text × Place)) : (upToPresent v members).Sublist members := by
    induction members with
    | nil => exact .refl _
    | cons member members ih =>
      rw [upToPresent]
      split
      · exact (List.nil_sublist members).cons_cons member
      · exact ih.cons_cons member
  have kinds : (("using_filesort".toList :: ofKinds.map Prod.fst)).Nodup := by decide
  have found := kinds.sublist (((kept ofKinds).map Prod.fst).cons_cons _)
  cases p with
  | ordering => exact found
  | block | grouping | distinct => exact (List.nodup_cons.1 found).2
  | table =>
    rw [members]
    decide
  | union | entry | derived | holder => exact List.nodup_singleton _
  | loop | attached | specifications | other => exact List.nodup_nil

theorem alike_of_others {p : Place} {fields fields' : Json.Fields} {name : Text}
    (there : ∀ q, (name, q) ∈ p.members (.object fields) →
      Option.Rel (Alike q) ((Json.object fields).get? name) ((Json.object fields').get? name))
    (others : ∀ other ≠ name,
      (Json.object fields').get? other = (Json.object fields).get? other) :
    Alike p (.object fields) (.object fields') := by
  refine ⟨read_congr ?_ .none, rfl, rfl, rfl⟩
  rintro ⟨other, q⟩ hm
  by_cases same : other = name
  · exact same ▸ there q (same ▸ hm)
  · rw [others other same]
    cases (Json.object fields).get? other with
    | none => exact .none
    | some v => exact .some (.refl q v)

theorem alike_of_edited (edited : Edited p v w) : Alike p v w := by
  induction edited with
  | unread unread others =>
    exact alike_of_others (fun q hm => absurd (List.mem_map_of_mem hm) unread) others
  | member known before after others _ ih =>
    refine alike_of_others (fun q' hm => ?_) others
    have same := List.inj_on_of_nodup_map (nodup_members _ _) known hm rfl
    cases same
    rw [before, after]
    exact .some ih
  | item _ ih =>
    refine ⟨read_congr (fun member _ => .none) (.some ?_), rfl, rfl, rfl⟩
    have unchanged (q : Place) (vs : List Json) : List.Forall₂ (Alike q) vs vs :=
      List.forall₂_same.2 fun v _ => .refl q v
    exact List.rel_append (unchanged _ _) (.cons ih (unchanged _ _))
  | refl v => exact .refl _ v
  | trans _ _ ih ih' => exact ih.trans ih'

end Edits

end Place

/-- A delivered document with changes of members that are not looked up: neither around the plan,
where a column is looked for only without a query block, nor in it. -/
inductive EditedDocument : Json → Json → Prop
  | unread {name : Text} {fields fields' : Json.Fields} (notMember : name ≠ wrapping.member)
      (notColumn : name = wrapping.column →
        ((Json.object fields).get? wrapping.member).isSome)
      (others : ∀ other ≠ name,
        (Json.object fields').get? other = (Json.object fields).get? other) :
      EditedDocument (.object fields) (.object fields')
  | block {fields fields' : Json.Fields} {v w : Json}
      (before : (Json.object fields).get? wrapping.member = some v)
      (after : (Json.object fields').get? wrapping.member = some w)
      (edited : Edited .block v w) : EditedDocument (.object fields) (.object fields')
  | column {fields fields' : Json.Fields} {v w : Json}
      (absent : (Json.object fields).get? wrapping.member = none)
      (absent' : (Json.object fields').get? wrapping.member = none)
      (before : (Json.object fields).get? wrapping.column = some v)
      (after : (Json.object fields').get? wrapping.column = some w)
      (edited : EditedDocument v w) : EditedDocument (.object fields) (.object fields')
  /-- Only the first row counts. -/
  | first {v w : Json} {rows rows' : List Json} (edited : EditedDocument v w) :
      EditedDocument (.array (v :: rows)) (.array (w :: rows'))
  /-- A string that holds the document. -/
  | text {s s' : Text} {v w : Json} (before : Json.parse? (Text.trim s) = some v)
      (after : Json.parse? (Text.trim s') = some w) (edited : EditedDocument v w) :
      EditedDocument (.string s) (.string s')
  | refl (v : Json) : EditedDocument v v
  | trans {u v w : Json} (first : EditedDocument u v) (second : EditedDocument v w) :
      EditedDocument u w

section Documents

variable {v w block : Json} {fields : Json.Fields}

theorem read_of_unwrap (located : wrapping.unwrap v = .ok block) :
    read v = (Place.block.read block).map fun roots => ⟨.mySql, roots⟩ := by
  rw [read, located, Place.read]
  change (readBlock block).map _ = _
  cases readBlock block <;> rfl

theorem read_congr (same : wrapping.unwrap v = wrapping.unwrap w) : read v = read w := by
  rw [read, read, same]

theorem read_of_editedDocument (edited : EditedDocument v w) : read v = read w := by
  induction edited with
  | @unread name fields fields' notMember notColumn others =>
    refine read_congr ?_
    have member := others wrapping.member notMember.symm
    cases block : (Json.object fields).get? wrapping.member with
    | some b => rw [unwrap_of_member block, unwrap_of_member (member.trans block)]
    | none =>
      have column : (Json.object fields').get? wrapping.column =
          (Json.object fields).get? wrapping.column := by
        refine others _ fun same => ?_
        have present := notColumn same.symm
        rw [block] at present
        cases present
      cases inner : (Json.object fields).get? wrapping.column with
      | some v =>
        rw [unwrap_of_column block inner,
          unwrap_of_column (member.trans block) (column.trans inner)]
      | none =>
        rw [unwrap_of_none block inner, unwrap_of_none (member.trans block) (column.trans inner)]
  | block before after edited =>
    rw [read_of_unwrap (unwrap_of_member before), read_of_unwrap (unwrap_of_member after),
      (Place.alike_of_edited edited).read]
  | column absent absent' before after _ ih =>
    rw [read_congr (unwrap_of_column absent before),
      read_congr (unwrap_of_column absent' after), ih]
  | first _ ih =>
    refine (read_congr ?_).trans (ih.trans (read_congr ?_)) <;> rw [Wrapping.unwrap]
  | text before after _ ih =>
    rw [read_congr (unwrap_of_text before), read_congr (unwrap_of_text after), ih]
  | refl => rfl
  | trans _ _ ih ih' => exact ih.trans ih'

theorem normalize_error_iff (located : wrapping.unwrap v = .ok block) {e : ShapeError} :
    normalize .mySql v = .error e ↔ Place.block.read block = .error e := by
  rw [normalize, read_of_unwrap located]
  cases Place.block.read block <;> simp [Except.map]

theorem interpret_builtin_of_error {e : ShapeError} {database : Database}
    (h : normalize database v = .error e) (t : Thresholds) :
    (Interpreter.builtin t).interpret database v = .empty := by
  rw [Interpreter.interpret, h]
  change (Interpreter.builtin t).evaluate (.empty database) = .empty
  rw [Interpreter.evaluate_builtin, Tree.empty, Node.preorderAll]
  rfl

end Documents

/-- A document with a query block is read unless a list of joined tables that is come to from the
block is bad, at whatever depth. The whole document then has the fault of such a list and no
insights. No change of members that are not looked up changes what is read. -/
theorem normalize_traversal {v block : Json} (located : wrapping.unwrap v = .ok block) :
    ((∃ e, normalize .mySql v = .error e) ↔
        ∃ loop e, Place.Reaches (.block, block) (.loop, loop) ∧ BadLoop loop e) ∧
      (∀ e, normalize .mySql v = .error e →
        (∃ loop, Place.Reaches (.block, block) (.loop, loop) ∧ BadLoop loop e) ∧
        (∃ detail, e.message = ShapeError.invalid detail) ∧
        ∀ t, (Interpreter.builtin t).interpret .mySql v = .empty) ∧
      ∀ v', EditedDocument v v' → normalize .mySql v' = normalize .mySql v := by
  have fault {e : ShapeError} (h : normalize .mySql v = .error e) :
      ∃ loop, Place.Reaches (.block, block) (.loop, loop) ∧ BadLoop loop e :=
    Place.reaches_of_read_error ((normalize_error_iff located).1 h)
  refine ⟨⟨?_, ?_⟩, ?_, ?_⟩
  · rintro ⟨e, h⟩
    obtain ⟨loop, reaches, bad⟩ := fault h
    exact ⟨loop, e, reaches, bad⟩
  · rintro ⟨loop, e, reaches, bad⟩
    obtain ⟨e', h⟩ := Place.read_error_of_reaches reaches bad
    exact ⟨e', (normalize_error_iff located).2 h⟩
  · intro e h
    obtain ⟨loop, reaches, bad⟩ := fault h
    refine ⟨⟨loop, reaches, bad⟩, ?_, interpret_builtin_of_error h⟩
    cases bad with
    | notArray => exact ⟨_, rfl⟩
    | noTable => exact ⟨_, rfl⟩
  · intro v' edited
    exact (read_of_editedDocument edited).symm

def barrenTable (cost : Text) : Json :=
  .object [("attached_subqueries", .array [.object [("query_block",
    .object [("nested_loop", .array [.null])])]]), ("cost_info", .string cost)]

def barrenSort (cost : Text) : Json :=
  .object [("table", barrenTable cost), ("using_filesort", .bool true)]

def barrenPlan (cost : Text) : Json :=
  .object [("query_block", .object [("ordering_operation", barrenSort cost)])]

theorem get?_replaced {name other : Text} (h : other ≠ name) (before after : Json.Fields)
    (v w : Json) : (Json.object (before ++ (name, w) :: after)).get? other =
      (Json.object (before ++ (name, v) :: after)).get? other := by
  simp [Json.get?, List.find?_append, h.symm]

theorem edited_barrenPlan : EditedDocument (barrenPlan "2.50") (barrenPlan "7.00") := by
  have table : Edited .table (barrenTable "2.50") (barrenTable "7.00") :=
    .unread (show "cost_info".toList ∉ _ by decide) fun _ h => get?_replaced h [_] [] _ _
  have sort : Edited .ordering (barrenSort "2.50") (barrenSort "7.00") :=
    .member (show ("table".toList, Place.table) ∈ _ by decide) rfl rfl
      (fun _ h => get?_replaced h [] [_] _ _) table
  exact .block rfl rfl (.member (show ("ordering_operation".toList, Place.ordering) ∈ _ by decide)
    rfl rfl (fun _ h => get?_replaced h [] [] _ _) sort)

theorem normalize_barrenPlan :
    wrapping.unwrap (barrenPlan "2.50") =
        .ok (.object [("ordering_operation", barrenSort "2.50")]) ∧
      (∃ e, normalize .mySql (barrenPlan "2.50") = .error e) ∧
      normalize .mySql (barrenPlan "7.00") = normalize .mySql (barrenPlan "2.50") := by
  have located : wrapping.unwrap (barrenPlan "2.50") =
      .ok (.object [("ordering_operation", barrenSort "2.50")]) := unwrap_of_member rfl
  obtain ⟨fails_iff, _, unchanged⟩ := normalize_traversal located
  refine ⟨located, fails_iff.2 ⟨.array [.null], .loopEmpty, ?_, .noTable ?_⟩,
    unchanged _ edited_barrenPlan⟩
  · let query (loop : Json) : Json := .object [("query_block", .object [("nested_loop", loop)])]
    have block : Place.Goes (.block, .object [("ordering_operation", barrenSort "2.50")])
        (.ordering, barrenSort "2.50") := .head _
    have sort : Place.Goes (.ordering, barrenSort "2.50") (.table, barrenTable "2.50") :=
      .tail _ (.head _)
    have table : Place.Goes (.table, barrenTable "2.50")
        (.attached, .array [query (.array [.null])]) := .head _
    have attached : Place.Goes (.attached, .array [query (.array [.null])])
        (.holder, query (.array [.null])) := .head _
    have holder : Place.Goes (.holder, query (.array [.null]))
        (.block, .object [("nested_loop", .array [.null])]) := .head _
    have loop : Place.Goes (.block, .object [("nested_loop", .array [.null])])
        (.loop, .array [.null]) := .head _
    exact .head block (.head sort (.head table (.head attached (.head holder (.single loop)))))
  · exact List.forall_mem_singleton.2 rfl

end SqlReview.Plan.MySql
