import SqlReview.Plan.Shape
import SqlReview.Plan.Sqlite.Detail

/-!
The rows of a plan of SQLite, linked by the number of each row and that of its parent. A row whose
parent is no other row is a root. Every row gives at most one node, and every number at most one,
whatever loops and repetitions the links make.
-/
namespace SqlReview.Plan.Sqlite

structure Row where
  id : Int
  parent : Int
  node : Node
deriving Repr, BEq

/-- A row is its detail alone, which is a root then unless the numbers say otherwise, or an object
with its numbers. A row without a number takes its position, counted from one. -/
def Row.ofJson (position : Nat) (v : Json) : Except ShapeError Row :=
  match v with
  | .string detail => .ok ⟨position + 1, 0, nodeOf detail⟩
  | .object _ =>
    match v.getText? "detail" with
    | none => .error .noDetail
    | some detail =>
      .ok ⟨((v.get? "id").bind Json.integer?).getD (position + 1),
        ((v.get? "parent").bind Json.integer?).getD 0, nodeOf detail⟩
  | _ => .error (.badRow v)

def Row.ofJsonFrom : (position : Nat) → List Json → Except ShapeError (List Row)
  | _, [] => .ok []
  | position, v :: vs =>
    match Row.ofJson position v with
    | .error e => .error e
    | .ok row => (Row.ofJsonFrom (position + 1) vs).map (row :: ·)

/-- The rows not yet taken, each in its old place, and the numbers that have a node. -/
structure Assembly where
  slots : List (Option Row)
  visited : List Int

def Assembly.places (test : Row → Bool) (a : Assembly) : List Nat :=
  a.slots.zipIdx.filterMap fun (slot, place) => if slot.any test then some place else none

/-- Takes the row in a place with all rows below it. Nothing comes of a row that is taken already,
or whose number has a node already. Each level takes a row, so as many levels as there are rows
suffice. -/
def Assembly.takeTree : (levels : Nat) → Nat → Assembly → Option Node × Assembly
  | 0, _, a => (none, a)
  | levels + 1, place, a =>
    match a.slots[place]? with
    | some (some row) =>
      let a := { a with slots := a.slots.set place none }
      if a.visited.contains row.id then (none, a)
      else
        let a := { a with visited := row.id :: a.visited }
        let below := a.places fun child => child.parent == row.id && child.id != row.id
        let (children, a) := below.foldl
          (fun (children, a) place =>
            match takeTree levels place a with
            | (some child, a) => (children ++ [child], a)
            | (none, a) => (children, a))
          (([] : List Node), a)
        (some { row.node with children := row.node.children ++ children }, a)
    | _ => (none, a)

def Row.isRoot (rows : List Row) (row : Row) : Bool :=
  row.parent == row.id || !rows.any fun other => other.id == row.parent

def assemble (rows : List Row) : List Node :=
  let start : Assembly := ⟨rows.map some, []⟩
  ((start.places (Row.isRoot rows)).foldl
    (fun (roots, a) place =>
      match a.takeTree rows.length place with
      | (some root, a) => (roots ++ [root], a)
      | (none, a) => (roots, a))
    (([] : List Node), start)).1

end SqlReview.Plan.Sqlite
