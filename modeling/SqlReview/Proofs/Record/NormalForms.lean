import SqlReview.Config
import SqlReview.Plan.Codec
import SqlReview.Query.Codec
import SqlReview.Proofs.Plan.Visits
import SqlReview.Proofs.Record.Forms

/-!
Plans, facts and configurations as documents. Each reader accepts just the documents that give a
value in the forms of a record, all the way down; of all that give one value, the written one is the
normal form.
-/
namespace SqlReview

open Record

/-- The written document is the normal form of all documents that give a value: it is read as the
value, reading accepts those documents and no others, and each of them is written as that one. -/
structure NormalForm {α : Type} (write : α → Json) (read? : Json → Option α)
    (givenBy : α → Json → Prop) : Prop where
  read_write : ∀ a, read? (write a) = some a
  read_iff : ∀ v a, read? v = some a ↔ givenBy a v
  read_again : ∀ v, ((read? v).map write).bind read? = read? v
  write_iff : ∀ v a, (read? v).map write = some (write a) ↔ givenBy a v

theorem NormalForm.of_givenBy {α : Type} {write : α → Json} {read? : Json → Option α}
    {givenBy : α → Json → Prop} (read_iff : ∀ v a, read? v = some a ↔ givenBy a v)
    (written : ∀ a, givenBy a (write a)) : NormalForm write read? givenBy := by
  have read_write (a : α) : read? (write a) = some a := (read_iff _ a).2 (written a)
  refine ⟨read_write, read_iff, fun v => ?_, fun v a => ?_⟩
  · cases read? v with
    | none => rfl
    | some a => exact read_write a
  · rw [← read_iff, Option.map_eq_some_iff]
    constructor
    · rintro ⟨b, hb, same⟩
      rw [hb, ← read_write b, same, read_write]
    · intro h
      exact ⟨a, h, rfl⟩

section Configurations

def Layout.Settings.GivenBy (settings : Layout.Settings) : Json → Prop :=
  Gives [.defaulted "indent_size" (Only .ofNat) 2 settings.indentSize,
    .defaulted "uppercase_keywords" (Only .bool) true settings.uppercaseKeywords]

def Thresholds.GivenBy (t : Thresholds) : Json → Prop :=
  Gives [.defaulted "large_table_threshold" (Only .ofNat) 1000 t.largeTable,
    .defaulted "high_row_threshold" (Only .ofNat) 10000 t.highRows]

def Config.GivenBy (config : Config) : Json → Prop :=
  Gives [.defaulted "formatter" Layout.Settings.GivenBy .default config.layout,
    .defaulted "plan" Thresholds.GivenBy .default config.thresholds,
    .defaulted "rule_set" (Names RuleSet.name) .placeholder config.ruleSet]

theorem Layout.Settings.read?_eq_some_iff (v : Json) (settings : Layout.Settings) :
    read? v = some settings ↔ settings.GivenBy v := by
  rw [GivenBy, gives_iff]
  simp only [read?, bind, Option.bind_eq_some_iff, Option.some.injEq, document_natural?,
    document_flag?, defaulted_eq_some_iff natural?_eq_some_iff,
    defaulted_eq_some_iff flag?_eq_some_iff, StandIn, and_true]
  constructor
  · rintro ⟨m, hm, _, indent, _, uppercase, rfl⟩
    exact ⟨m, hm, indent, uppercase⟩
  · rintro ⟨m, hm, indent, uppercase⟩
    exact ⟨m, hm, _, indent, _, uppercase, rfl⟩

theorem Thresholds.read?_eq_some_iff (v : Json) (t : Thresholds) :
    read? v = some t ↔ t.GivenBy v := by
  rw [GivenBy, gives_iff]
  simp only [read?, bind, Option.bind_eq_some_iff, Option.some.injEq, document_natural?,
    defaulted_eq_some_iff natural?_eq_some_iff, StandIn, and_true]
  constructor
  · rintro ⟨m, hm, _, large, _, high, rfl⟩
    exact ⟨m, hm, large, high⟩
  · rintro ⟨m, hm, large, high⟩
    exact ⟨m, hm, _, large, _, high, rfl⟩

theorem RuleSet.read?_eq_some_iff (v : Json) (rules : RuleSet) :
    read? v = some rules ↔ Names name rules v :=
  choice?_eq_some_iff (by rintro ⟨⟩ <;> rfl) v rules

theorem Config.read?_eq_some_iff (v : Json) (config : Config) :
    read? v = some config ↔ config.GivenBy v := by
  rw [GivenBy, gives_iff]
  simp only [read?, bind, Option.bind_eq_some_iff, Option.some.injEq,
    defaulted_eq_some_iff Layout.Settings.read?_eq_some_iff,
    defaulted_eq_some_iff Thresholds.read?_eq_some_iff,
    defaulted_eq_some_iff RuleSet.read?_eq_some_iff, StandIn, and_true]
  constructor
  · rintro ⟨m, hm, _, layout, _, thresholds, _, rules, rfl⟩
    exact ⟨m, hm, layout, thresholds, rules⟩
  · rintro ⟨m, hm, layout, thresholds, rules⟩
    exact ⟨m, hm, _, layout, _, thresholds, _, rules, rfl⟩

theorem Layout.Settings.givenBy_toJson (settings : Layout.Settings) :
    settings.GivenBy settings.toJson :=
  gives_ofFields (by simp) (.cons ⟨rfl, rfl⟩ (.cons ⟨rfl, rfl⟩ .nil))

theorem Thresholds.givenBy_toJson (t : Thresholds) : t.GivenBy t.toJson :=
  gives_ofFields (by simp) (.cons ⟨rfl, rfl⟩ (.cons ⟨rfl, rfl⟩ .nil))

theorem Config.givenBy_toJson (config : Config) : config.GivenBy config.toJson :=
  gives_ofFields (by simp) (.cons ⟨rfl, config.layout.givenBy_toJson⟩
    (.cons ⟨rfl, config.thresholds.givenBy_toJson⟩ (.cons ⟨rfl, .inl rfl⟩ .nil)))

end Configurations

namespace Query

def JoinCondition.GivenBy (j : JoinCondition) : Json → Prop :=
  Gives [.required "table" (Only .string) j.table,
    .required "condition" (Only .string) j.condition]

def Facts.GivenBy (f : Facts) : Json → Prop :=
  Gives [.required "tables" (ListOf (Only .string)) f.tables,
    .required "columns" (ListOf (Only .string)) f.columns,
    .required "where_conditions" (ListOf (Only .string)) f.whereConditions,
    .required "join_conditions" (ListOf JoinCondition.GivenBy) f.joinConditions,
    .required "order_by_columns" (ListOf (Only .string)) f.orderItems]

theorem JoinCondition.read?_eq_some_iff (v : Json) (j : JoinCondition) :
    read? v = some j ↔ j.GivenBy v := by
  rw [GivenBy, gives_iff]
  simp only [read?, bind, Option.bind_eq_some_iff, Option.some.injEq, document_text?,
    required_eq_some_iff (text?_eq_some_iff · _), StandIn, and_true]
  constructor
  · rintro ⟨m, hm, _, table, _, condition, rfl⟩
    exact ⟨m, hm, table, condition⟩
  · rintro ⟨m, hm, table, condition⟩
    exact ⟨m, hm, _, table, _, condition, rfl⟩

theorem Facts.read?_eq_some_iff (v : Json) (f : Facts) : read? v = some f ↔ f.GivenBy v := by
  rw [GivenBy, gives_iff]
  simp only [read?, bind, Option.bind_eq_some_iff, Option.some.injEq, document_text?,
    required_eq_some_iff (list?_eq_some_iff text?_eq_some_iff · _),
    required_eq_some_iff (list?_eq_some_iff JoinCondition.read?_eq_some_iff · _),
    StandIn, and_true]
  constructor
  · rintro ⟨m, hm, _, tables, _, columns, _, conditions, _, joins, _, items, rfl⟩
    exact ⟨m, hm, tables, columns, conditions, joins, items⟩
  · rintro ⟨m, hm, tables, columns, conditions, joins, items⟩
    exact ⟨m, hm, _, tables, _, columns, _, conditions, _, joins, _, items, rfl⟩

theorem JoinCondition.givenBy_toJson (j : JoinCondition) : j.GivenBy j.toJson :=
  gives_ofFields (by simp) (.cons ⟨rfl, rfl⟩ (.cons ⟨rfl, rfl⟩ .nil))

theorem Facts.givenBy_toJson (f : Facts) : f.GivenBy f.toJson := by
  have texts (ts : List Text) : ListOf (Only .string) ts (.ofTexts ts) :=
    listOf_map (only_encode .string) ts
  exact gives_ofFields (by simp) (.cons ⟨rfl, texts _⟩ (.cons ⟨rfl, texts _⟩ (.cons ⟨rfl, texts _⟩
    (.cons ⟨rfl, listOf_map JoinCondition.givenBy_toJson _⟩ (.cons ⟨rfl, texts _⟩ .nil)))))

end Query

namespace Plan

mutual

def Node.GivenBy : Node → Json → Prop
  | ⟨operation, label, relation, index, rows, children⟩ =>
    Gives [.required "operation" (Names Operation.name) operation,
      .required "label" (Only .string) label, .optional "relation" (Only .string) relation,
      .optional "index_name" (Only .string) index, .optional "rows" (Only .ofNat) rows,
      ⟨"children", fun v => ∃ items, v = .array items ∧ Node.AllGivenBy children items, False,
        False⟩]

def Node.AllGivenBy : List Node → List Json → Prop
  | [], [] => True
  | n :: ns, v :: vs => n.GivenBy v ∧ Node.AllGivenBy ns vs
  | _, _ => False

end

def Tree.GivenBy (t : Tree) : Json → Prop :=
  Gives [.required "database" (Names Database.tag) t.database,
    .required "roots" (ListOf Node.GivenBy) t.roots]

theorem Operation.read?_eq_some_iff (v : Json) (operation : Operation) :
    read? v = some operation ↔ Names name operation v :=
  choice?_eq_some_iff (by rintro ⟨⟩ <;> rfl) v operation

theorem Database.read?_eq_some_iff (v : Json) (database : Database) :
    Database.read? v = some database ↔ Names Database.tag database v :=
  choice?_eq_some_iff (by rintro ⟨⟩ <;> rfl) v database

namespace Node

theorem allGivenBy_iff (ns : List Node) (vs : List Json) :
    AllGivenBy ns vs ↔ List.Forall₂ GivenBy ns vs := by
  induction ns generalizing vs with
  | nil => cases vs <;> simp [AllGivenBy]
  | cons n ns ih => cases vs <;> simp [AllGivenBy, ih]

theorem givenBy_iff (n : Node) (v : Json) : n.GivenBy v ↔
    Gives [.required "operation" (Names Operation.name) n.operation,
      .required "label" (Only .string) n.label, .optional "relation" (Only .string) n.relation,
      .optional "index_name" (Only .string) n.index, .optional "rows" (Only .ofNat) n.rows,
      .required "children" (ListOf GivenBy) n.children] v := by
  cases n
  simp only [GivenBy, allGivenBy_iff]
  rfl

/-- The children are looked for before the other members are read. -/
theorem ofJson?_eq_some_iff_members (v : Json) (n : Node) : ofJson? v = some n ↔
    ∃ m, members? 6 v = some m ∧ m.required "operation" 0 Operation.read? = some n.operation ∧
      m.required "label" 1 Json.text? = some n.label ∧
      m.optional "relation" 2 Json.text? = some n.relation ∧
      m.optional "index_name" 3 Json.text? = some n.index ∧
      m.optional "rows" 4 Json.natural? = some n.rows ∧
      m.required "children" 5 (fun v => (Json.items? v).bind listOfJson?) = some n.children := by
  rw [ofJson?]
  split
  case h_1 noMembers => simp [noMembers]
  case h_2 m hm =>
    simp only [hm, Option.some.injEq, exists_eq_left']
    split
    case h_1 items there =>
      have below : m.required "children" 5 (fun v => (Json.items? v).bind listOfJson?) =
          listOfJson? items := by
        rw [Members.required, there]
        rfl
      simp only [below, bind, Option.bind_eq_some_iff, Option.some.injEq]
      constructor
      · rintro ⟨_, operation, _, label, _, relation, _, index, _, rows, _, children, rfl⟩
        exact ⟨operation, label, relation, index, rows, children⟩
      · rintro ⟨operation, label, relation, index, rows, children⟩
        cases n
        exact ⟨_, operation, _, label, _, relation, _, index, _, rows, _, children, rfl⟩
    case h_2 notArray =>
      have below : m.required "children" 5 (fun v => (Json.items? v).bind listOfJson?) = none := by
        unfold Members.required
        cases there : m.get? "children" 5 with
        | none => rfl
        | some w =>
          cases w with
          | array items => exact absurd there (notArray items)
          | _ => rfl
      simp only [below, reduceCtorEq, and_false]

/-- By induction on the forest that is read: of a first node the children are a forest below. -/
theorem listOfJson?_eq_some_iff (vs : List Json) (ns : List Node) :
    listOfJson? vs = some ns ↔ List.Forall₂ GivenBy ns vs := by
  induction ns using forest_induction generalizing vs with
  | nil => cases vs <;> simp [listOfJson?, Option.bind_eq_some_iff]
  | cons n ns below others =>
    -- the reader of children is known only at the children of this node, which is all that is asked
    have first (v : Json) : ofJson? v = some n ↔ n.GivenBy v := by
      rw [ofJson?_eq_some_iff_members, givenBy_iff, gives_iff]
      simp only [required_eq_some_iff (Operation.read?_eq_some_iff · _),
        required_eq_some_iff (text?_eq_some_iff · _),
        optional_eq_some_iff text?_eq_some_iff, optional_eq_some_iff natural?_eq_some_iff,
        required_eq_some_iff fun v => items?_bind_eq_some_iff below,
        StandIn, and_true]
      rfl
    cases vs with
    | nil => simp [listOfJson?]
    | cons v vs =>
      simp [listOfJson?, Option.bind_eq_some_iff, first, others]

theorem forall_givenBy_toJson (ns : List Node) : List.Forall₂ GivenBy ns (listToJson ns) := by
  induction ns using forest_induction with
  | nil => exact .nil
  | cons n ns below others =>
    refine .cons ?_ others
    rw [givenBy_iff]
    cases n
    rw [toJson]
    exact gives_ofFields (by simp) (.cons ⟨rfl, .inl rfl⟩ (.cons ⟨rfl, rfl⟩
      (.cons ⟨rfl, optional_given _ (by simp) (only_encode .string) _⟩
      (.cons ⟨rfl, optional_given _ (by simp) (only_encode .string) _⟩
      (.cons ⟨rfl, optional_given _ (by simp [Json.ofNat]) (only_encode .ofNat) _⟩
      (.cons ⟨rfl, _, rfl, below⟩ .nil))))))

end Node

theorem Tree.ofJson?_eq_some_iff (v : Json) (t : Tree) : ofJson? v = some t ↔ t.GivenBy v := by
  rw [GivenBy, gives_iff]
  simp only [ofJson?, bind, Option.bind_eq_some_iff, Option.some.injEq,
    required_eq_some_iff (Database.read?_eq_some_iff · _),
    required_eq_some_iff fun v => items?_bind_eq_some_iff (Node.listOfJson?_eq_some_iff · _),
    StandIn, and_true]
  constructor
  · rintro ⟨m, hm, _, database, _, roots, rfl⟩
    exact ⟨m, hm, database, roots⟩
  · rintro ⟨m, hm, database, roots⟩
    exact ⟨m, hm, _, database, _, roots, rfl⟩

theorem Tree.givenBy_toJson (t : Tree) : t.GivenBy t.toJson :=
  gives_ofFields (by simp) (.cons ⟨rfl, .inl rfl⟩
    (.cons ⟨rfl, _, rfl, Node.forall_givenBy_toJson t.roots⟩ .nil))

end Plan

/-- Plans, facts and configurations are read from the documents that they are written as, and these
are the normal forms: names that are not known, members that are left out and members in a list by
their places are what `GivenBy` allows besides. -/
theorem toJson_normalForm :
    NormalForm Plan.Tree.toJson Plan.Tree.ofJson? Plan.Tree.GivenBy ∧
      NormalForm Query.Facts.toJson Query.Facts.read? Query.Facts.GivenBy ∧
      NormalForm Config.toJson Config.read? Config.GivenBy :=
  ⟨.of_givenBy Plan.Tree.ofJson?_eq_some_iff Plan.Tree.givenBy_toJson,
    .of_givenBy Query.Facts.read?_eq_some_iff Query.Facts.givenBy_toJson,
    .of_givenBy Config.read?_eq_some_iff Config.givenBy_toJson⟩

example : Config.read? (Json.array [.object [("margin", .null), ("indent_size", .ofNat 4)]]) =
    some ⟨⟨4, true⟩, .default, .placeholder⟩ := rfl

end SqlReview
