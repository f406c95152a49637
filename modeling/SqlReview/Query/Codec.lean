import SqlReview.Query.Facts
import SqlReview.Record.Document

/-!
The facts of a query as documents.
-/
namespace SqlReview.Query

variable {V : Type} [Document V]

def JoinCondition.toJson (j : JoinCondition) : Json :=
  .ofFields [("table", .string j.table), ("condition", .string j.condition)]

def JoinCondition.read? (v : V) : Option JoinCondition := do
  let m ← Record.members? 2 v
  let table ← m.required "table" 0 Document.text?
  let condition ← m.required "condition" 1 Document.text?
  some { table, condition }

def Facts.toJson (f : Facts) : Json :=
  .ofFields [("tables", .ofTexts f.tables), ("columns", .ofTexts f.columns),
    ("where_conditions", .ofTexts f.whereConditions),
    ("join_conditions", .array (f.joinConditions.map JoinCondition.toJson)),
    ("order_by_columns", .ofTexts f.orderItems)]

def Facts.read? (v : V) : Option Facts := do
  let m ← Record.members? 5 v
  let texts := Record.list? (V := V) Document.text?
  let tables ← m.required "tables" 0 texts
  let columns ← m.required "columns" 1 texts
  let whereConditions ← m.required "where_conditions" 2 texts
  let joinConditions ← m.required "join_conditions" 3 (Record.list? JoinCondition.read?)
  let orderItems ← m.required "order_by_columns" 4 texts
  some { tables, columns, whereConditions, joinConditions, orderItems }

end SqlReview.Query
