import SqlReview.Record.Document

/-!
The databases whose way of explaining a query is known.
-/
namespace SqlReview

inductive Database where
  | postgres
  | mySql
  | sqlite
deriving Repr, DecidableEq

namespace Database

def all : List Database := [.postgres, .mySql, .sqlite]

def tag : Database → Text
  | .postgres => "postgresql"
  | .mySql => "mysql"
  | .sqlite => "sqlite"

def displayName : Database → Text
  | .postgres => "PostgreSQL"
  | .mySql => "MySQL"
  | .sqlite => "SQLite"

def tags : Database → List Text
  | .postgres => ["postgresql", "postgres", "pg"]
  | .mySql => ["mysql", "mariadb"]
  | .sqlite => ["sqlite", "sqlite3"]

/-- Resolves a tag in any case of its letters and with blanks around it. -/
def ofTag? (tag : Text) : Option Database :=
  all.find? fun database => database.tags.contains (Text.lower (Text.trim tag))

/-- The statement that explains a query. The one for PostgreSQL also runs it. -/
def explainStatement (database : Database) (query : Text) : Text :=
  match database with
  | .postgres => "EXPLAIN (ANALYZE, COSTS, VERBOSE, BUFFERS, FORMAT JSON) " ++ query
  | .mySql => "EXPLAIN FORMAT=JSON " ++ query
  | .sqlite => "EXPLAIN QUERY PLAN " ++ query

def toJson (database : Database) : Json := .string database.tag

/-- Only the canonical tag is a serialized database. -/
def read? {V : Type} [Document V] (v : V) : Option Database := Record.choice? all tag v

end Database

end SqlReview
