import SqlReview.Proofs.Plan.Sqlite.Words

/-!
Reads of a table by an index, as SQLite words them. Whatever the names are, the node of such a
phrase has its table and its index, and is a read of the index alone where the index is covering.
-/
namespace SqlReview.Plan.Sqlite

open Sql (Keyword)
open Pattern (isSpelling)
open Text (Unbroken spaced isCapital capitals contains)

inductive Verb where
  | scan
  | search
deriving Repr, DecidableEq

def Verb.word : Verb → Text
  | .scan => "SCAN"
  | .search => "SEARCH"

/-- A table is not named TABLE, since that word is passed over. -/
structure TableName where
  text : Text
  unbroken : Unbroken text
  free : Text.eqIgnoreCase text "TABLE" = false

structure IndexName where
  text : Text
  unbroken : Unbroken text
  plain : '(' ∉ text

structure ColumnName where
  text : Text
  solid : ∀ c ∈ text, Text.isBlank c = false

def ColumnName.condition (c : ColumnName) : Text := '(' :: (c.text ++ ['=', '?', ')'])

structure Opening (v : Verb) where
  verb : Keyword v.word
  tableWord : Option (Keyword "TABLE")
  table : TableName

def Opening.words {v : Verb} (o : Opening v) : List Text :=
  o.verb.text :: ((o.tableWord.map Keyword.text).toList ++ [o.table.text])

/-- A phrase such as `SEARCH orders USING COVERING INDEX idx (user_id=?)`. -/
structure IndexRead where
  verb : Verb
  opening : Opening verb
  using_ : Keyword "USING"
  covering : Option (Keyword "COVERING")
  index : Keyword "INDEX"
  name : IndexName
  column : Option ColumnName

namespace IndexRead

def indexWords (r : IndexRead) : List Text :=
  (r.covering.map Keyword.text).toList ++
    r.index.text :: r.name.text :: (r.column.map ColumnName.condition).toList

def words (r : IndexRead) : List Text := r.opening.words ++ r.using_.text :: r.indexWords

def text (r : IndexRead) : Text := spaced r.words

end IndexRead

/-- A phrase such as `SEARCH orders USING INTEGER PRIMARY KEY (rowid=?)`. -/
structure KeyRead where
  opening : Opening .search
  using_ : Keyword "USING"
  integer : Keyword "INTEGER"
  primary : Keyword "PRIMARY"
  key : Keyword "KEY"
  column : ColumnName

namespace KeyRead

def keyWords (r : KeyRead) : List Text :=
  [r.integer.text, r.primary.text, r.key.text, r.column.condition]

def words (r : KeyRead) : List Text := r.opening.words ++ r.using_.text :: r.keyWords

def text (r : KeyRead) : Text := spaced r.words

end KeyRead

section Unbroken

theorem Verb.isCapital_word (v : Verb) : v.word.all isCapital = true := by
  cases v <;> decide

theorem ColumnName.unbroken (c : ColumnName) : Unbroken c.condition where
  filled := List.cons_ne_nil _ _
  solid d hd := by
    simp only [condition, List.mem_cons, List.mem_append, List.not_mem_nil, or_false] at hd
    rcases hd with rfl | hd | rfl | rfl | rfl
    · decide
    · exact c.solid d hd
    · decide
    · decide
    · decide

theorem unbroken_keyword? {w : Text} (capital : w.all isCapital = true) (filled : w ≠ [])
    (k : Option (Keyword w)) : ∀ x ∈ (k.map Keyword.text).toList, Unbroken x := by
  cases k with
  | none => simp
  | some k => simp [k.unbroken capital filled]

theorem Opening.unbroken {v : Verb} (o : Opening v) : ∀ x ∈ o.words, Unbroken x := by
  have filled : v.word ≠ [] := by cases v <;> decide
  have tableWord := unbroken_keyword? (by decide) (by decide) o.tableWord
  rw [Opening.words, List.forall_mem_cons, List.forall_mem_append, List.forall_mem_singleton]
  exact ⟨o.verb.unbroken v.isCapital_word filled, tableWord, o.table.unbroken⟩

theorem IndexRead.unbroken_indexWords (r : IndexRead) : ∀ x ∈ r.indexWords, Unbroken x := by
  have covering := unbroken_keyword? (by decide) (by decide) r.covering
  have index := r.index.unbroken (by decide) (by decide)
  have column : ∀ x ∈ (r.column.map ColumnName.condition).toList, Unbroken x := by
    cases r.column with
    | none => simp
    | some c => simp [c.unbroken]
  rw [indexWords, List.forall_mem_append, List.forall_mem_cons, List.forall_mem_cons]
  exact ⟨covering, index, r.name.unbroken, column⟩

theorem KeyRead.unbroken_keyWords (r : KeyRead) : ∀ x ∈ r.keyWords, Unbroken x := by
  have integer := r.integer.unbroken (by decide) (by decide)
  have primary := r.primary.unbroken (by decide) (by decide)
  have key := r.key.unbroken (by decide) (by decide)
  simp only [keyWords, List.forall_mem_cons]
  exact ⟨integer, primary, key, r.column.unbroken, by simp⟩

theorem unbroken_words {v : Verb} (o : Opening v) (k : Keyword "USING") {ws : List Text}
    (h : ∀ x ∈ ws, Unbroken x) : ∀ x ∈ o.words ++ k.text :: ws, Unbroken x := by
  rw [List.forall_mem_append, List.forall_mem_cons]
  exact ⟨o.unbroken, k.unbroken (by decide) (by decide), h⟩

end Unbroken

theorem TableName.not_spelled (t : TableName) : isSpelling "TABLE" t.text = false := by
  rw [Pattern.isSpelling_of_noForeign (by decide) (by decide), ← Bool.not_eq_true, beq_iff_eq]
  intro upper
  have alike : Text.Alike t.text "TABLE" := Text.alike_iff_upper.2 (upper.trans (by decide))
  exact beq_eq_false_iff_ne.1 t.free alike

section Opening

variable {v : Verb} {u : Text} {ws : List Text}

theorem afterVerb (k : Keyword v.word) (h : ∀ x ∈ k.text :: u :: ws, Unbroken x) :
    (afterWord? "SCAN" (spaced (k.text :: u :: ws))).or
      (afterWord? "SEARCH" (spaced (k.text :: u :: ws))) = some (spaced (u :: ws)) := by
  rw [afterWord?_keyword (by decide) v.isCapital_word k h,
    afterWord?_keyword (by decide) v.isCapital_word k h]
  cases v <;> rfl

theorem firstWord_spaced (h : Unbroken u) (ws : List Text) : firstWord (spaced (u :: ws)) = u :=
  Text.takeWhile_spaced (fun c hc => by simp [h.solid c hc]) (by decide) ws

theorem tableOf?_opening (o : Opening v) (k : Keyword "USING") (h : ∀ x ∈ ws, Unbroken x) :
    tableOf? (spaced (o.words ++ k.text :: ws)) = some o.table.text := by
  have whole := unbroken_words o k h
  obtain ⟨verb, tableWord, table⟩ := o
  have read := firstWord_spaced table.unbroken (k.text :: ws)
  have filled : table.text.isEmpty = false := by simp [table.unbroken.filled]
  cases tableWord with
  | none =>
    change ∀ x ∈ verb.text :: table.text :: k.text :: ws, Unbroken x at whole
    change tableOf? (spaced (verb.text :: table.text :: k.text :: ws)) = some table.text
    rw [tableOf?, afterVerb verb whole, Option.bind_some,
      afterWord?_spaced (by decide) (List.forall_mem_cons.1 whole).2, table.not_spelled]
    simp [read, filled]
  | some t =>
    change ∀ x ∈ verb.text :: t.text :: table.text :: k.text :: ws, Unbroken x at whole
    change tableOf? (spaced (verb.text :: t.text :: table.text :: k.text :: ws)) = some table.text
    rw [tableOf?, afterVerb verb whole, Option.bind_some,
      afterWord?_keyword (by decide) (by decide) t (List.forall_mem_cons.1 whole).2]
    obtain ⟨c, name, split⟩ :=
      List.exists_cons_of_ne_nil (Text.spaced_ne_nil table.unbroken (k.text :: ws))
    rw [split] at read ⊢
    simp [read, filled]

/-- The opening tells of no index: the table may end in USING, but what follows is USING. -/
theorem indexOf?_opening (o : Opening v) (k : Keyword "USING") {w : Text}
    (h : ∀ x ∈ w :: ws, Unbroken x) :
    indexOf? (spaced (o.words ++ k.text :: w :: ws)) =
      (nameAfter? (spaced (w :: ws))).or (indexOf? (spaced (w :: ws))) := by
  have whole := unbroken_words o k h
  obtain ⟨verb, tableWord, table⟩ := o
  have noVerb : v.word.tails.any (· == ("USING" : Text)) = false := by cases v <;> decide
  have fromTable (t : ∀ x ∈ table.text :: k.text :: w :: ws, Unbroken x) :
      indexOf? (spaced (table.text :: k.text :: w :: ws)) =
        (nameAfter? (spaced (w :: ws))).or (indexOf? (spaced (w :: ws))) := by
    have later := (List.forall_mem_cons.1 t).2
    rw [indexOf?_spaced t, nameAfter?_other (by decide) k (by decide) (by decide) later, ite_self,
      Option.none_or, indexOf?_using k later]
  cases tableWord with
  | none =>
    change ∀ x ∈ verb.text :: table.text :: k.text :: w :: ws, Unbroken x at whole
    change indexOf? (spaced (verb.text :: table.text :: k.text :: w :: ws)) = _
    rw [indexOf?_other v.isCapital_word verb noVerb whole,
      fromTable (List.forall_mem_cons.1 whole).2]
  | some t =>
    change ∀ x ∈ verb.text :: t.text :: table.text :: k.text :: w :: ws, Unbroken x at whole
    change indexOf? (spaced (verb.text :: t.text :: table.text :: k.text :: w :: ws)) = _
    have later := (List.forall_mem_cons.1 whole).2
    rw [indexOf?_other v.isCapital_word verb noVerb whole,
      indexOf?_other (by decide) t (by decide) later, fromTable (List.forall_mem_cons.1 later).2]

theorem Opening.isChain_append {R : Text → Text → Prop} (o : Opening v)
    (verb : ∀ x, R o.verb.text x) (tableWord : ∀ (k : Keyword "TABLE") x, R k.text x)
    (table : R o.table.text u) (rest : (u :: ws).IsChain R) : (o.words ++ u :: ws).IsChain R := by
  obtain ⟨k, t, name⟩ := o
  cases t with
  | none => exact .cons_cons (verb _) (.cons_cons table rest)
  | some t => exact .cons_cons (verb _) (.cons_cons (tableWord t _) (.cons_cons table rest))

theorem Opening.exists_capitals (o : Opening v) (ws : List Text) :
    ∃ s, capitals (spaced (o.words ++ ws)) = v.word ++ s := by
  obtain ⟨s, split, _⟩ := Text.exists_spaced_cons o.verb.text
    ((o.tableWord.map Keyword.text).toList ++ [o.table.text] ++ ws)
  refine ⟨capitals s, ?_⟩
  rw [← o.verb.capitals_text v.isCapital_word, ← Text.capitals_append, ← split]
  rfl

end Opening

section Operation

variable {v : Verb} {s : Text}

theorem operationOf_covering (h : contains "COVERING INDEX" (v.word ++ s) = true) :
    operationOf (v.word ++ s) = .indexOnlyScan := by
  cases v with
  | scan =>
    change Option.getD (Option.map _ (List.find? _ _)) _ = _
    rw [List.find?_cons_of_pos (by exact h)]
    rfl
  | search =>
    change Option.getD (Option.map _ (List.find? _ _)) _ = _
    rw [List.find?_cons_of_pos (by exact h)]
    rfl

/-- A search is by an index, whatever the phrase goes on with; a scan has to say so. -/
theorem operationOf_index (noCovering : contains "COVERING INDEX" (v.word ++ s) = false)
    (index : v = .search ∨ contains "USING INDEX" (v.word ++ s) = true) :
    operationOf (v.word ++ s) = .indexScan := by
  cases v with
  | scan =>
    have index := index.resolve_left nofun
    change Option.getD (Option.map _ (List.find? _ _)) _ = _
    rw [List.find?_cons_of_neg (by exact noCovering ▸ Bool.false_ne_true),
      List.find?_cons_of_pos (by exact index)]
    rfl
  | search =>
    change Option.getD (Option.map _ (List.find? _ _)) _ = _
    rw [List.find?_cons_of_neg (by exact noCovering ▸ Bool.false_ne_true)]
    rfl

end Operation

section Covering

def Apart (u v : Text) : Prop := ¬ (("COVERING" : Text) <:+ capitals u ∧ "INDEX" <+: capitals v)

theorem apart_of_keyword {w : Text} (capital : w.all isCapital = true)
    (other : ¬ ("COVERING" : Text) <:+ w) (k : Keyword w) (x : Text) : Apart k.text x := by
  intro both
  rw [k.capitals_text capital] at both
  exact other both.1

theorem apart_of_condition (x : Text) (c : ColumnName) : Apart x c.condition := by
  rintro ⟨_, s, phrase⟩
  cases phrase

variable {v : Verb} {ws : List Text}

theorem not_contains_covering (o : Opening v) (k : Keyword "USING") (h : ∀ x ∈ ws, Unbroken x)
    (apart : ws.IsChain Apart) :
    contains "COVERING INDEX" (capitals (spaced (o.words ++ k.text :: ws))) = false := by
  have noVerb : ¬ ("COVERING" : Text) <:+ v.word := by cases v <;> decide
  have table : Apart o.table.text k.text := by
    intro both
    rw [k.capitals_text (by decide)] at both
    exact absurd both.2 (by decide)
  have fromUsing : (k.text :: ws).IsChain Apart :=
    apart.cons fun x _ => apart_of_keyword (by decide) (by decide) k x
  apply (Text.not_contains_capitals_iff (a := "COVERING") (b := "INDEX") (by decide) (by decide)
    (unbroken_words o k h)).2
  exact o.isChain_append (apart_of_keyword v.isCapital_word noVerb o.verb)
    (fun t => apart_of_keyword (by decide) (by decide) t) table fromUsing

end Covering

namespace IndexRead

theorem tableOf?_text (r : IndexRead) : tableOf? r.text = some r.opening.table.text :=
  tableOf?_opening r.opening r.using_ r.unbroken_indexWords

theorem nameAfter?_indexWords (r : IndexRead) :
    nameAfter? (spaced r.indexWords) = some r.name.text := by
  have unbroken := r.unbroken_indexWords
  obtain ⟨verb, opening, k, covering, index, name, column⟩ := r
  cases covering with
  | none => exact nameAfter?_index index name.plain unbroken
  | some c => exact nameAfter?_covering c index name.plain unbroken

theorem indexOf?_text (r : IndexRead) : indexOf? r.text = some r.name.text := by
  have unbroken := r.unbroken_indexWords
  have named := r.nameAfter?_indexWords
  have filled : r.indexWords ≠ [] := List.append_ne_nil_of_right_ne_nil _ (List.cons_ne_nil _ _)
  obtain ⟨w, ws, split⟩ := List.exists_cons_of_ne_nil filled
  rw [text, words]
  rw [split] at unbroken named ⊢
  rw [indexOf?_opening r.opening r.using_ unbroken, named, Option.some_or]

theorem operationOf_text (r : IndexRead) : operationOf (capitals r.text) =
    if r.covering.isSome then .indexOnlyScan else .indexScan := by
  have unbroken := r.unbroken_indexWords
  obtain ⟨s, start⟩ := r.opening.exists_capitals (r.using_.text :: r.indexWords)
  obtain ⟨verb, opening, k, covering, index, name, column⟩ := r
  have using_ : capitals k.text = "USING" := k.capitals_text (by decide)
  have index_ : capitals index.text = "INDEX" := index.capitals_text (by decide)
  cases covering with
  | some c =>
    have covering : capitals c.text = "COVERING" := c.capitals_text (by decide)
    have phrase := Text.contains_capitals (List.cons_ne_nil c.text [index.text])
      (opening.words ++ [k.text]) (name.text :: (column.map ColumnName.condition).toList)
    rw [List.map_cons, List.map_singleton, covering, index_, List.append_assoc] at phrase
    rw [text, words, start]
    apply operationOf_covering
    rw [← start]
    exact phrase
  | none =>
    have phrase := Text.contains_capitals (List.cons_ne_nil k.text [index.text])
      opening.words (name.text :: (column.map ColumnName.condition).toList)
    rw [List.map_cons, List.map_singleton, using_, index_] at phrase
    have apart : [index.text, name.text].IsChain Apart :=
      .cons_cons (apart_of_keyword (by decide) (by decide) index name.text) (.singleton _)
    have chain : ([index.text, name.text] ++ (column.map ColumnName.condition).toList).IsChain
        Apart := by
      cases column with
      | none => exact apart
      | some c =>
        exact List.isChain_append.2 ⟨apart, .singleton _, fun x _ y hy => by
          obtain rfl := Option.mem_some.1 hy
          exact apart_of_condition x c⟩
    have noCovering := not_contains_covering opening k unbroken chain
    rw [text, words, start]
    rw [start] at noCovering
    apply operationOf_index noCovering
    rw [← start]
    exact .inr phrase

end IndexRead

namespace KeyRead

theorem tableOf?_text (r : KeyRead) : tableOf? r.text = some r.opening.table.text :=
  tableOf?_opening r.opening r.using_ r.unbroken_keyWords

theorem indexOf?_text (r : KeyRead) : indexOf? r.text = none := by
  have unbroken := r.unbroken_keyWords
  have later := (List.forall_mem_cons.1 unbroken).2
  have last := (List.forall_mem_cons.1 later).2
  rw [text, words, keyWords, indexOf?_opening r.opening r.using_ unbroken,
    nameAfter?_other (by decide) r.integer (by decide) (by decide) unbroken, Option.none_or,
    indexOf?_other (by decide) r.integer (by decide) unbroken,
    indexOf?_other (by decide) r.primary (by decide) later,
    indexOf?_other (by decide) r.key (by decide) last, Text.spaced_singleton,
    indexOf?_last r.column.unbroken.solid]

theorem operationOf_text (r : KeyRead) : operationOf (capitals r.text) = .indexScan := by
  obtain ⟨s, start⟩ := r.opening.exists_capitals (r.using_.text :: r.keyWords)
  have chain : r.keyWords.IsChain Apart :=
    .cons_cons (apart_of_keyword (by decide) (by decide) r.integer _)
      (.cons_cons (apart_of_keyword (by decide) (by decide) r.primary _)
        (.cons_cons (apart_of_condition _ r.column) (.singleton _)))
  have noCovering := not_contains_covering r.opening r.using_ r.unbroken_keyWords chain
  rw [start] at noCovering
  rw [text, words, start]
  exact operationOf_index noCovering (.inl rfl)

theorem contains_primaryKey (r : KeyRead) :
    contains "INTEGER PRIMARY KEY" (capitals r.text) = true := by
  have phrase := Text.contains_capitals
    (List.cons_ne_nil r.integer.text [r.primary.text, r.key.text])
    (r.opening.words ++ [r.using_.text]) [r.column.condition]
  rw [List.map_cons, List.map_cons, List.map_singleton, r.integer.capitals_text (by decide),
    r.primary.capitals_text (by decide), r.key.capitals_text (by decide), List.append_assoc]
    at phrase
  exact phrase

end KeyRead

/-- Every such phrase is read as what it says, whatever words its names are. -/
theorem nodeOf_index_reads :
    (∀ r : IndexRead, nodeOf r.text =
      { operation := if r.covering.isSome then .indexOnlyScan else .indexScan
        label := r.text
        relation := some r.opening.table.text
        index := some r.name.text
        rows := none
        children := [] }) ∧
    ∀ r : KeyRead, nodeOf r.text =
      { operation := .indexScan
        label := r.text
        relation := some r.opening.table.text
        index := some "PRIMARY KEY"
        rows := none
        children := [] } := by
  constructor
  · intro r
    have trimmed : Text.trim r.text = r.text :=
      Text.trim_spaced (unbroken_words r.opening r.using_ r.unbroken_indexWords)
    have scan : (if r.covering.isSome then Operation.indexOnlyScan
        else .indexScan).isScan = true := by
      split <;> rfl
    rw [nodeOf, trimmed, r.operationOf_text, r.tableOf?_text, r.indexOf?_text]
    simp only [scan, if_true]
  · intro r
    have trimmed : Text.trim r.text = r.text :=
      Text.trim_spaced (unbroken_words r.opening r.using_ r.unbroken_keyWords)
    rw [nodeOf, trimmed, r.operationOf_text, r.tableOf?_text, r.indexOf?_text]
    simp only [r.contains_primaryKey, Operation.isScan, if_true]

def wordsAsNames : IndexRead where
  verb := .search
  opening :=
    { verb := ⟨"Search", by decide⟩
      tableWord := some ⟨"table", by decide⟩
      table := ⟨"Using", by decide, by decide⟩ }
  using_ := ⟨"using", by decide⟩
  covering := some ⟨"covering", by decide⟩
  index := ⟨"INDEX", by decide⟩
  name := ⟨"index", by decide, by decide⟩
  column := some ⟨"integer", Unbroken.solid (by decide)⟩

def keyOfUsing : KeyRead where
  opening :=
    { verb := ⟨"SEARCH", by decide⟩
      tableWord := none
      table := ⟨"USING", by decide, by decide⟩ }
  using_ := ⟨"USING", by decide⟩
  integer := ⟨"INTEGER", by decide⟩
  primary := ⟨"PRIMARY", by decide⟩
  key := ⟨"KEY", by decide⟩
  column := ⟨"rowid", Unbroken.solid (by decide)⟩

theorem nodeOf_wordsAsNames :
    nodeOf "Search table Using using covering INDEX index (integer=?)" =
      { operation := .indexOnlyScan
        label := "Search table Using using covering INDEX index (integer=?)"
        relation := some "Using"
        index := some "index"
        rows := none
        children := [] } ∧
    nodeOf "SEARCH USING USING INTEGER PRIMARY KEY (rowid=?)" =
      { operation := .indexScan
        label := "SEARCH USING USING INTEGER PRIMARY KEY (rowid=?)"
        relation := some "USING"
        index := some "PRIMARY KEY"
        rows := none
        children := [] } :=
  ⟨nodeOf_index_reads.1 wordsAsNames, nodeOf_index_reads.2 keyOfUsing⟩

end SqlReview.Plan.Sqlite
