import SqlReview.Proofs.Insight.Findings
import SqlReview.Proofs.Plan.Sqlite.IndexReads
import SqlReview.Proofs.Plan.Sqlite.Shown

/-!
Scans of whole tables. A scan is told from other work by what the whole phrase contains, so the name
of the table has a say: one with SUBQUERY in it makes the scan a subquery, and no report names the
table. Under any other name the scan is a concern in every plan that shows it.
-/
namespace SqlReview.Plan.Sqlite

open Insight
open Sql (Keyword)
open Text (Unbroken spaced capitals contains upper)

/-- A phrase such as `SCAN users` or `SCAN TABLE users`. -/
structure TableScan where
  verb : Keyword "SCAN"
  tableWord : Option (Keyword "TABLE")
  table : Text
  filled : table ≠ []
  plain : ∀ c ∈ table, Text.isPlain c = true

namespace TableScan

def words (s : TableScan) : List Text :=
  s.verb.text :: ((s.tableWord.map Keyword.text).toList ++ [s.table])

def text (s : TableScan) : Text := spaced s.words

/-- The name of the table has SUBQUERY in it, in any letter case. -/
def NamesSubquery (s : TableScan) : Prop := ("SUBQUERY" : Text) <:+: upper s.table

instance (s : TableScan) : Decidable s.NamesSubquery := inferInstanceAs (Decidable (_ <:+: _))

section Words

variable (s : TableScan)

theorem unbroken_table : Unbroken s.table :=
  ⟨s.filled, fun c hc => Text.not_isBlank_of_isPlain (s.plain c hc)⟩

theorem unbroken_words : ∀ w ∈ s.words, Unbroken w := by
  have tableWord := unbroken_keyword? (by decide) (by decide) s.tableWord
  rw [words, List.forall_mem_cons, List.forall_mem_append, List.forall_mem_singleton]
  exact ⟨s.verb.unbroken (by decide) (by decide), tableWord, s.unbroken_table⟩

theorem capitals_words : s.words.map capitals = ("SCAN" : Text) ::
    ((s.tableWord.map fun _ => ("TABLE" : Text)).toList ++ [upper s.table]) := by
  have verb : capitals s.verb.text = "SCAN" := s.verb.capitals_text (by decide)
  have table : capitals s.table = upper s.table := Text.capitals_of_plain s.plain
  rw [words, List.map_cons, List.map_append, List.map_singleton, verb, table]
  cases s.tableWord with
  | none => rfl
  | some t =>
    have word : capitals t.text = "TABLE" := t.capitals_text (by decide)
    rw [Option.map_some, Option.toList_some, List.map_singleton, word]
    rfl

theorem scan_capitals : ("SCAN" : Text) <+: capitals s.text := by
  rw [text, Text.capitals_spaced, capitals_words, Text.prefix_spaced (by decide)]

theorem not_contains_phrase {a b : Text} (ha : ' ' ∉ a) (hb : ' ' ∉ b)
    (verb : ¬ a <:+ "SCAN") (table : ¬ a <:+ "TABLE") :
    contains (a ++ ' ' :: b) (capitals s.text) = false := by
  have chain := List.isChain_map capitals (R := fun u v => ¬ (a <:+ u ∧ b <+: v)) (l := s.words)
  rw [text, Text.not_contains_capitals_iff ha hb s.unbroken_words, ← chain, capitals_words]
  cases s.tableWord with
  | none => exact .cons_cons (fun both => verb both.1) (.singleton _)
  | some t =>
    exact .cons_cons (fun both => verb both.1)
      (.cons_cons (fun both => table both.1) (.singleton _))

theorem contains_subquery_iff :
    contains "SUBQUERY" (capitals s.text) = true ↔ s.NamesSubquery := by
  have verb : ¬ ("SUBQUERY" : Text) <:+: "SCAN" := by decide
  have table : ¬ ("SUBQUERY" : Text) <:+: "TABLE" := by decide
  rw [Text.contains_iff, text, Text.capitals_spaced, Text.infix_spaced (by decide) (by decide),
    capitals_words, List.exists_mem_cons_iff, or_iff_right verb, NamesSubquery]
  cases s.tableWord with
  | none => simp only [Option.map_none, Option.toList_none, List.nil_append, List.mem_singleton,
      exists_eq_left]
  | some t =>
    rw [Option.map_some, Option.toList_some, List.singleton_append, List.exists_mem_cons_iff,
      or_iff_right table]
    simp only [List.mem_singleton, exists_eq_left]

end Words

end TableScan

section Operation

variable {c : Text}

theorem operationOf_scan (scan : ("SCAN" : Text) <+: c)
    (covering : contains "COVERING INDEX" c = false) (using_ : contains "USING INDEX" c = false)
    (constant : contains "CONSTANT ROW" c = false) :
    operationOf c = if contains "SUBQUERY" c then .subquery else .fullScan := by
  obtain ⟨s, rfl⟩ := scan
  change Option.getD (Option.map _ (List.find? _ _)) _ = _
  rw [List.find?_cons_of_neg (by exact covering ▸ Bool.false_ne_true),
    List.find?_cons_of_neg (by exact using_ ▸ Bool.false_ne_true)]
  split
  · next subquery =>
    rw [List.find?_cons_of_pos (by exact subquery)]
    rfl
  · next other =>
    rw [List.find?_cons_of_neg (by exact other),
      List.find?_cons_of_neg (by exact constant ▸ Bool.false_ne_true)]
    rfl

theorem not_subquery_of_fullScan (h : operationOf c = .fullScan) :
    ¬ ("SUBQUERY" : Text) <:+: c := by
  have phrased : ∀ entry ∈ works, ∀ phrase ∈ entry.2.1, phrase.2 ≠ .fullScan := by decide
  have sole : ∀ entry ∈ works, entry.2.2 = .fullScan →
      ("SUBQUERY", Operation.subquery) ∈ entry.2.1 := by
    decide
  unfold operationOf at h
  split at h
  · next phrases otherwise e =>
    have known := List.mem_of_find?_eq_some e
    cases found : phrases.find? fun phrase => contains phrase.1.toList c with
    | some phrase =>
      rw [found] at h
      exact absurd h (phrased _ known phrase (List.mem_of_find?_eq_some found))
    | none =>
      rw [found] at h
      have none := List.find?_eq_none.1 found _ (sole _ known h)
      rwa [Text.contains_iff] at none
  · cases h

end Operation

namespace TableScan

section Node

variable (s : TableScan)

theorem operationOf_text : operationOf (capitals s.text) =
    if s.NamesSubquery then .subquery else .fullScan := by
  have covering := s.not_contains_phrase (a := "COVERING") (b := "INDEX") (by decide) (by decide)
    (by decide) (by decide)
  have using_ := s.not_contains_phrase (a := "USING") (b := "INDEX") (by decide) (by decide)
    (by decide) (by decide)
  have constant := s.not_contains_phrase (a := "CONSTANT") (b := "ROW") (by decide) (by decide)
    (by decide) (by decide)
  rw [operationOf_scan s.scan_capitals covering using_ constant]
  exact if_congr s.contains_subquery_iff rfl rfl

theorem text_ne_nil : s.text ≠ [] :=
  Text.spaced_ne_nil (s.verb.unbroken (by decide) (by decide)) _

theorem text_ne_header : s.text ≠ header := by
  intro same
  have scan := s.scan_capitals
  rw [same] at scan
  exact absurd scan (by decide)

theorem tableOf?_text : tableOf? s.text = some s.table := by
  have whole := s.unbroken_words
  have last := s.unbroken_table
  obtain ⟨verb, tableWord, table, filled, _⟩ := s
  have read := firstWord_spaced last []
  rw [Text.spaced_singleton] at read
  cases tableWord with
  | none =>
    change ∀ w ∈ [verb.text, table], Unbroken w at whole
    change tableOf? (spaced [verb.text, table]) = some table
    rw [tableOf?, afterVerb (v := .scan) verb whole, Option.bind_some, Text.spaced_singleton,
      afterWord?_last _ last.solid]
    simp [read, filled]
  | some t =>
    change ∀ w ∈ [verb.text, t.text, table], Unbroken w at whole
    change tableOf? (spaced [verb.text, t.text, table]) = some table
    rw [tableOf?, afterVerb (v := .scan) verb whole, Option.bind_some,
      afterWord?_keyword (by decide) (by decide) t (List.forall_mem_cons.1 whole).2,
      Text.spaced_singleton]
    obtain ⟨c, name, rfl⟩ := List.exists_cons_of_ne_nil filled
    simp [read]

theorem indexOf?_text : indexOf? s.text = none := by
  have whole := s.unbroken_words
  have last := indexOf?_last s.unbroken_table.solid
  obtain ⟨verb, tableWord, table, _, _⟩ := s
  cases tableWord with
  | none =>
    change ∀ w ∈ [verb.text, table], Unbroken w at whole
    change indexOf? (spaced [verb.text, table]) = none
    rw [indexOf?_other (by decide) verb (by decide) whole, Text.spaced_singleton, last]
  | some t =>
    change ∀ w ∈ [verb.text, t.text, table], Unbroken w at whole
    change indexOf? (spaced [verb.text, t.text, table]) = none
    rw [indexOf?_other (by decide) verb (by decide) whole,
      indexOf?_other (by decide) t (by decide) (List.forall_mem_cons.1 whole).2,
      Text.spaced_singleton, last]

theorem nodeOf_text : nodeOf s.text =
    { operation := if s.NamesSubquery then .subquery else .fullScan
      label := s.text
      relation := if s.NamesSubquery then none else some s.table
      index := none
      rows := none
      children := [] } := by
  have trimmed : Text.trim s.text = s.text := Text.trim_spaced s.unbroken_words
  have key : contains "INTEGER PRIMARY KEY" (capitals s.text) = false := by
    have shorter := s.not_contains_phrase (a := "INTEGER") (b := "PRIMARY") (by decide)
      (by decide) (by decide) (by decide)
    rw [← Bool.not_eq_true, Text.contains_iff] at shorter ⊢
    have start : ("INTEGER PRIMARY" : Text) <+: "INTEGER PRIMARY KEY" := by decide
    exact fun longer => shorter (start.isInfix.trans longer)
  rw [nodeOf, trimmed, s.operationOf_text, s.tableOf?_text, s.indexOf?_text]
  simp only [key]
  split <;> rfl

end Node

end TableScan

section Names

variable {d rest w table : Text}

theorem afterWord?_suffix (h : afterWord? w d = some rest) : rest <:+ d := by
  simp only [afterWord?, Option.ite_none_right_eq_some] at h
  rw [← Option.some.inj h.2]
  exact (List.dropWhile_suffix Text.isBlank).trans (List.drop_suffix ..)

theorem infix_of_tableOf? (h : tableOf? d = some table) : table <:+: d := by
  obtain ⟨rest, opened, named⟩ := Option.bind_eq_some_iff.1 h
  have sub : rest <:+ d :=
    (Option.or_eq_some_iff.1 opened).elim afterWord?_suffix fun search => afterWord?_suffix search.2
  simp only [Option.ite_none_left_eq_some] at named
  rw [← Option.some.inj named.2]
  refine (List.takeWhile_prefix _).isInfix.trans (List.IsInfix.trans ?_ sub.isInfix)
  split
  · next e => exact (afterWord?_suffix e).isInfix
  · exact List.infix_rfl

theorem TableScan.not_namesSubquery (s : TableScan) (scan : (nodeOf d).operation = .fullScan)
    (named : Rule.tableName (nodeOf d) = s.table) : ¬ s.NamesSubquery := by
  have operation : operationOf (capitals (Text.trim d)) = .fullScan := scan
  have relation : (nodeOf d).relation = tableOf? (Text.trim d) := by
    simp only [nodeOf, operation]
    rfl
  rw [Rule.tableName, relation] at named
  rw [NamesSubquery, ← Text.capitals_of_plain s.plain, ← named]
  cases found : tableOf? (Text.trim d) with
  | none => decide
  | some table =>
    have inside := Text.infix_capitals (infix_of_tableOf? found)
    exact fun subquery => not_subquery_of_fullScan operation (subquery.trans inside)

end Names

section Reports

/-- The scan of a whole table is read as one, and as a concern of every plan that shows it, unless
the name of the table has SUBQUERY in it: then it is read as a subquery without a table, and there
is no plan of which a report tells that the table is scanned. -/
theorem TableScan.concern_iff (s : TableScan) :
    nodeOf s.text =
        { operation := if s.NamesSubquery then .subquery else .fullScan
          label := s.text
          relation := if s.NamesSubquery then none else some s.table
          index := none
          rows := none
          children := [] } ∧
      ∀ plan, Shows s.text plan → ∃ tree, normalize .sqlite plan = .ok tree ∧
        (∃ n ∈ tree.nodes, n.bare = nodeOf s.text) ∧
        ∀ t, tableConcern s.table ∈ ((Interpreter.builtin t).interpret .sqlite plan).majorConcerns ↔
          ¬ s.NamesSubquery := by
  refine ⟨s.nodeOf_text, fun plan shown => ?_⟩
  obtain ⟨tree, read, told, n, hn, node⟩ := shown.hasStep s.text_ne_nil s.text_ne_header
  refine ⟨tree, read, ⟨n, hn, node⟩, fun t => ?_⟩
  have unknown : ∀ n ∈ tree.nodes, n.rows = none := by
    intro n hn
    obtain ⟨d, bare⟩ := told n hn
    exact congrArg Node.rows bare
  rw [Interpreter.interpret, read]
  simp only [Interpreter.tableConcern_mem_iff unknown]
  constructor
  · rintro ⟨m, hm, scan, named⟩
    obtain ⟨d, bare⟩ := told m hm
    have scan : (nodeOf d).operation = .fullScan := (congrArg Node.operation bare).symm.trans scan
    have named : Rule.tableName (nodeOf d) = s.table :=
      (congrArg Rule.tableName bare).symm.trans named
    exact s.not_namesSubquery scan named
  · intro plain
    rw [s.nodeOf_text, if_neg plain, if_neg plain] at node
    exact ⟨n, hn, congrArg Node.operation node, congrArg Rule.tableName node⟩

def usersScan : TableScan where
  verb := ⟨"SCAN", by decide⟩
  tableWord := none
  table := "users"
  filled := by decide
  plain := List.all_eq_true.1 (by decide)

def logScan : TableScan where
  verb := ⟨"SCAN", by decide⟩
  tableWord := some ⟨"TABLE", by decide⟩
  table := "subquery_log"
  filled := by decide
  plain := List.all_eq_true.1 (by decide)

def bothScanned : Text := "QUERY PLAN\n|--SCAN users\n|--SCAN TABLE subquery_log"

theorem TableScan.concern_iff_bothScanned :
    tableConcern "users" ∈
        ((Interpreter.builtin .default).interpret .sqlite (.string bothScanned)).majorConcerns ∧
      tableConcern "subquery_log" ∉
        ((Interpreter.builtin .default).interpret .sqlite (.string bothScanned)).majorConcerns := by
  have first : ("|--SCAN users" : Text) ∈ Text.lines bothScanned := by decide +kernel
  have second : ("|--SCAN TABLE subquery_log" : Text) ∈ Text.lines bothScanned := by
    decide +kernel
  obtain ⟨_, _, _, users⟩ := (concern_iff usersScan).2 _ (.line first (by decide +kernel))
  obtain ⟨_, _, _, log⟩ := (concern_iff logScan).2 _ (.line second (by decide +kernel))
  exact ⟨(users .default).2 (by decide), mt (log .default).1 (not_not_intro (by decide))⟩

/-- The scan of a table that is named for its subqueries is taken for a subquery. -/
theorem table_taken_for_subquery :
    (nodeOf "SCAN subquery_log").operation = .subquery ∧
      (nodeOf "SCAN subquery_log").relation = none ∧
      ((Interpreter.builtin .default).interpret .sqlite
        (.array [.string "SCAN subquery_log"])).majorConcerns = [] := by
  decide +kernel

end Reports

end SqlReview.Plan.Sqlite
