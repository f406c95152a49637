import SqlReview.Database

/-!
A plan of any database, reduced to a forest of nodes that each do one coarse kind of work. Nodes are
visited with a stack, in the order in which a plan is printed.
-/
namespace SqlReview

namespace Plan

inductive Operation where
  | fullScan
  | indexScan
  | indexOnlyScan
  | join
  | sort
  | aggregate
  | distinct
  | subquery
  | materialize
  | setOperation
  | limit
  | other
deriving Repr, DecidableEq

namespace Operation

def all : List Operation :=
  [.fullScan, .indexScan, .indexOnlyScan, .join, .sort, .aggregate, .distinct, .subquery,
    .materialize, .setOperation, .limit, .other]

def name : Operation → Text
  | .fullScan => "full_scan"
  | .indexScan => "index_scan"
  | .indexOnlyScan => "index_only_scan"
  | .join => "join"
  | .sort => "sort"
  | .aggregate => "aggregate"
  | .distinct => "distinct"
  | .subquery => "subquery"
  | .materialize => "materialize"
  | .setOperation => "set_op"
  | .limit => "limit"
  | .other => "other"

def usesIndex : Operation → Bool
  | .indexScan | .indexOnlyScan => true
  | _ => false

def isScan : Operation → Bool
  | .fullScan | .indexScan | .indexOnlyScan => true
  | _ => false

end Operation

/-- A step of a plan. The label is the database's own name for it. -/
structure Node where
  operation : Operation
  label : Text
  relation : Option Text
  index : Option Text
  rows : Option Nat
  children : List Node
deriving Repr, BEq

namespace Node

def new (operation : Operation) (label : Text) : Node := ⟨operation, label, none, none, none, []⟩

def withRelation (relation : Text) (n : Node) : Node := { n with relation := some relation }

def withIndex (index : Text) (n : Node) : Node := { n with index := some index }

def withRows (rows : Nat) (n : Node) : Node := { n with rows := some rows }

def withChild (n child : Node) : Node := { n with children := n.children ++ [child] }

mutual

def count : Node → Nat
  | ⟨_, _, _, _, _, children⟩ => 1 + countAll children

def countAll : List Node → Nat
  | [] => 0
  | n :: ns => n.count + countAll ns

end

mutual

def preorder : Node → List Node
  | ⟨operation, label, relation, index, rows, children⟩ =>
    ⟨operation, label, relation, index, rows, children⟩ :: preorderAll children

def preorderAll : List Node → List Node
  | [] => []
  | n :: ns => n.preorder ++ preorderAll ns

end

theorem countAll_append (ns ms : List Node) :
    countAll (ns ++ ms) = countAll ns + countAll ms := by
  induction ns with
  | nil => simp [countAll]
  | cons n ns ih => simp [countAll, ih, Nat.add_assoc]

theorem count_eq (n : Node) : n.count = 1 + countAll n.children := by
  cases n
  simp [count]

/-- Visits the nodes waiting on a stack; the children of a visited node come next. -/
def visit (stack : List Node) : List Node :=
  match stack with
  | [] => []
  | n :: rest => n :: visit (n.children ++ rest)
termination_by countAll stack
decreasing_by
  simp only [countAll, countAll_append, count_eq]
  omega

end Node

structure Tree where
  database : Database
  roots : List Node
deriving Repr, BEq

namespace Tree

def empty (database : Database) : Tree := ⟨database, []⟩

def isEmpty (t : Tree) : Bool := t.roots.isEmpty

def nodes (t : Tree) : List Node := Node.visit t.roots

def count (operation : Operation) (t : Tree) : Nat := t.nodes.countP (·.operation = operation)

def contains (operation : Operation) (t : Tree) : Bool := t.nodes.any (·.operation = operation)

def nodeCount (t : Tree) : Nat := Node.countAll t.roots

end Tree

end Plan

end SqlReview
