import SqlReview.Plan.Normal
import SqlReview.Proofs.Json.Fields
import SqlReview.Proofs.Plan.Preorder

/-!
What a query block of MySQL does, apart from any document: blocks in blocks, with tables that hold
blocks again. Each has its document, its steps in the order of a plan, and the tree it should give.
-/
namespace SqlReview.Plan.MySql

structure Access where
  type : Text
  name : Option Text
  key : Option Text
  rows : Option Nat
  covering : Option Bool
deriving Repr, DecidableEq

mutual

inductive Block where
  | empty
  | table (t : Table)
  /-- Joined tables, at least one. -/
  | loop (first : Table) (others : List Table)
  | union (parts : List Block)
  | ordering (filesort : Bool) (content : Block)
  | grouping (content : Block)
  | distinct (content : Block)

inductive Table where
  | mk (access : Access) (materialized : Option Block) (attached : List Block)

end

/-- What one node of a plan does. -/
inductive Step where
  | table (access : Access)
  | join
  | ordering (filesort : Bool)
  | grouping
  | distinct
  | union
  | materialized
  | attached
  | empty
deriving Repr, DecidableEq

namespace Access

def node (a : Access) : Node :=
  ⟨operationOf (a.covering.getD false) a.type, "table (" ++ a.type ++ ")", a.name, a.key, a.rows,
    []⟩

def members (a : Access) : List (Text × Option Json) :=
  [("access_type", some (.string a.type)), ("table_name", a.name.map .string),
    ("key", a.key.map .string), ("rows_examined_per_scan", a.rows.map .ofNat),
    ("using_index", a.covering.map .bool)]

end Access

namespace Step

def node : Step → Node
  | .table access => access.node
  | .join => .new .join "nested_loop"
  | .ordering true => .new .sort "ordering_operation (filesort)"
  | .ordering false => .new .other "ordering_operation"
  | .grouping => .new .aggregate "grouping_operation"
  | .distinct => .new .distinct "duplicates_removal"
  | .union => .new .setOperation "union_result"
  | .materialized => .new .materialize "materialized_from_subquery"
  | .attached => .new .subquery "attached_subquery"
  | .empty => .new .other "query_block"

def above (s : Step) (children : List Node) : Node := { s.node with children }

def table? : Step → Option Access
  | .table access => some access
  | _ => none

/-- The steps with an operation that is theirs alone. -/
def singular : List Step :=
  [.join, .ordering true, .grouping, .distinct, .union, .materialized, .attached]

end Step

/-- The joins of a table with others, of which the last comes first here: it joins all before. -/
def spine (first : Node) : List Node → Node
  | [] => first
  | last :: before => Step.join.above [spine first before, last]

section Documents

def inBlock (members : List (Text × Json)) : Json :=
  .ofFields [("query_block", .ofFields members)]

/-- No array rather than an empty one. -/
def listed : List Json → Option Json
  | [] => none
  | items => some (.array items)

mutual

def Block.members : Block → List (Text × Json)
  | .empty => []
  | .table t => [("table", .ofMembers t.members)]
  | .loop first others =>
    [("nested_loop",
      .array (.ofFields [("table", .ofMembers first.members)] :: Table.entries others))]
  | .union parts =>
    [("union_result", .ofFields [("query_specifications", .array (Block.entries parts))])]
  | .ordering filesort content =>
    [("ordering_operation", .ofFields (("using_filesort", .bool filesort) :: content.members))]
  | .grouping content => [("grouping_operation", .ofFields content.members)]
  | .distinct content => [("duplicates_removal", .ofFields content.members)]

def Table.members : Table → List (Text × Option Json)
  | .mk access materialized attached =>
    ("materialized_from_subquery",
        match materialized with
        | none => none
        | some b => some (inBlock b.members)) ::
      ("attached_subqueries", listed (Block.entries attached)) :: access.members

def Table.entries : List Table → List Json
  | [] => []
  | t :: ts => .ofFields [("table", .ofMembers t.members)] :: Table.entries ts

def Block.entries : List Block → List Json
  | [] => []
  | b :: bs => inBlock b.members :: Block.entries bs

end

def Block.document (b : Block) : Json := inBlock b.members

def Table.document (t : Table) : Json := .ofMembers t.members

end Documents

section Trees

mutual

def Block.node : Block → Node
  | .empty => Step.empty.node
  | .table t => t.node
  | .loop first others => spine first.node (Table.nodes others).reverse
  | .union parts => Step.union.above (Block.nodes parts)
  | .ordering filesort content => (Step.ordering filesort).above [content.node]
  | .grouping content => Step.grouping.above [content.node]
  | .distinct content => Step.distinct.above [content.node]

def Table.node : Table → Node
  | .mk access materialized attached =>
    (Step.table access).above
      ((match materialized with
        | none => []
        | some b => [Step.materialized.above [b.node]]) ++
      (Block.nodes attached).map fun n => Step.attached.above [n])

def Table.nodes : List Table → List Node
  | [] => []
  | t :: ts => t.node :: Table.nodes ts

def Block.nodes : List Block → List Node
  | [] => []
  | b :: bs => b.node :: Block.nodes bs

end

mutual

/-- The steps of a block: what wraps others before what is wrapped, tables as they are listed. -/
def Block.steps : Block → List Step
  | .empty => [.empty]
  | .table t => t.steps
  | .loop first others =>
    List.replicate others.length .join ++ (first.steps ++ (Table.stepsEach others).flatten)
  | .union parts => .union :: (Block.stepsEach parts).flatten
  | .ordering filesort content => .ordering filesort :: content.steps
  | .grouping content => .grouping :: content.steps
  | .distinct content => .distinct :: content.steps

def Table.steps : Table → List Step
  | .mk access materialized attached =>
    .table access ::
      ((match materialized with
        | none => []
        | some b => .materialized :: b.steps) ++
      ((Block.stepsEach attached).map (.attached :: ·)).flatten)

def Table.stepsEach : List Table → List (List Step)
  | [] => []
  | t :: ts => t.steps :: Table.stepsEach ts

def Block.stepsEach : List Block → List (List Step)
  | [] => []
  | b :: bs => b.steps :: Block.stepsEach bs

end

mutual

/-- The tables of a block in the order of its document, each before those in its own blocks. -/
def Block.tables : Block → List Access
  | .empty => []
  | .table t => t.tables
  | .loop first others => first.tables ++ Table.tablesAll others
  | .union parts => Block.tablesAll parts
  | .ordering _ content => content.tables
  | .grouping content => content.tables
  | .distinct content => content.tables

def Table.tables : Table → List Access
  | .mk access materialized attached =>
    access ::
      ((match materialized with
        | none => []
        | some b => b.tables) ++
      Block.tablesAll attached)

def Table.tablesAll : List Table → List Access
  | [] => []
  | t :: ts => t.tables ++ Table.tablesAll ts

def Block.tablesAll : List Block → List Access
  | [] => []
  | b :: bs => b.tables ++ Block.tablesAll bs

end

end Trees

end SqlReview.Plan.MySql
