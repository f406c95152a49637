import SqlReview.Plan.Postgres
import SqlReview.Plan.MySql
import SqlReview.Plan.Sqlite.Rows
import SqlReview.Plan.Sqlite.Outline

/-!
Raw plans of any database, as executors deliver them, made into trees.
-/
namespace SqlReview.Plan

def Sqlite.read (v : Json) : Except ShapeError Tree :=
  let rooted (roots : List Node) : Tree := ⟨.sqlite, roots⟩
  match v with
  | .array rows => (Row.ofJsonFrom 0 rows).map fun rows => rooted (assemble rows)
  | .string text => .ok (rooted (readOutline text))
  | .object _ => (Row.ofJsonFrom 0 [v]).map fun rows => rooted (assemble rows)
  | _ => .error .noRows

def normalize (database : Database) (plan : Json) : Except ShapeError Tree :=
  match database with
  | .postgres => Postgres.read plan
  | .mySql => MySql.read plan
  | .sqlite => Sqlite.read plan

end SqlReview.Plan
