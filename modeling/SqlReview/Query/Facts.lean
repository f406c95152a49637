import SqlReview.Query.References
import SqlReview.Query.Ordering
import SqlReview.Query.Join

/-!
Everything that is read off the text of a query. A part that is missing or cannot be read is an
empty list, and duplicates stay.
-/
namespace SqlReview.Query

structure Facts where
  tables : List Text
  columns : List Text
  whereConditions : List Text
  joinConditions : List JoinCondition
  orderItems : List Text
deriving Repr, DecidableEq

namespace Facts

def extract (query : Text) : Facts :=
  let refs := References.ofQuery query
  { tables := refs.tables
    columns := refs.columns
    whereConditions := conditions query
    joinConditions := Query.joinConditions query
    orderItems := Query.orderItems query }

def isEmpty (facts : Facts) : Bool :=
  facts.tables.isEmpty && facts.columns.isEmpty && facts.whereConditions.isEmpty &&
    facts.joinConditions.isEmpty && facts.orderItems.isEmpty

end Facts

end SqlReview.Query
