import SqlReview.Advisor
import SqlReview.Complexity.Codec
import SqlReview.Index.Codec
import SqlReview.Insight.Codec
import SqlReview.Plan.Codec
import SqlReview.Query.Codec
import SqlReview.Sql.Codec
import SqlReview.Config.Load
import SqlReview.Proofs.Plan.Forest
import SqlReview.Proofs.Plan.Sqlite.Gathering
import SqlReview.Proofs.Plan.Sqlite.Links
import SqlReview.Proofs.Plan.Sqlite.RowForest
import SqlReview.Proofs.Plan.Sqlite.Drawing
import SqlReview.Proofs.Plan.Sqlite.Encodings
import SqlReview.Proofs.Text.Letters
import SqlReview.Proofs.Text.Pattern
import SqlReview.Proofs.Sql.Writing
import SqlReview.Proofs.Sql.Lexing
import SqlReview.Proofs.Query.Flat
import SqlReview.Proofs.Query.Groups
import SqlReview.Proofs.Query.Listing
import SqlReview.Proofs.Query.Clauses
import SqlReview.Proofs.Query.Joins
import SqlReview.Proofs.Query.NestedJoins
import SqlReview.Proofs.Index.Grouping
import SqlReview.Proofs.Plan.Postgres.Nesting
import SqlReview.Proofs.Plan.MySql.Steps
import SqlReview.Proofs.Explain.Session
import SqlReview.Proofs.Index.ComparedColumn
import SqlReview.Proofs.Insight.Findings
import SqlReview.Proofs.Query.TopLevel
import SqlReview.Proofs.Query.LetterCase
import SqlReview.Proofs.Index.Names
import SqlReview.Proofs.Query.Comments
import SqlReview.Proofs.Index.Terminator
import SqlReview.Proofs.Insight.RuleLists
import SqlReview.Proofs.Plan.Sqlite.AnyRows
import SqlReview.Proofs.Plan.Sqlite.Indentation
import SqlReview.Proofs.Plan.Sqlite.OpenBranches
import SqlReview.Proofs.Query.TableList
import SqlReview.Proofs.Query.Branches
import SqlReview.Proofs.Query.JoinPredicate
import SqlReview.Proofs.Query.QuotedNames
import SqlReview.Proofs.Query.JoinText
import SqlReview.Proofs.Plan.MySql.Traversal
import SqlReview.Proofs.Query.Conjuncts
import SqlReview.Proofs.Index.Sorting
import SqlReview.Proofs.Index.Statements
import SqlReview.Proofs.Plan.Wrappings
import SqlReview.Proofs.Query.CommonTables
import SqlReview.Proofs.Plan.Sqlite.IndexReads
import SqlReview.Proofs.Complexity.Scoring
import SqlReview.Proofs.Complexity.Joins
import SqlReview.Proofs.Complexity.Appending
import SqlReview.Proofs.Plan.Sqlite.TableScans
import SqlReview.Proofs.Plan.Visits
import SqlReview.Proofs.Query.GroupBounds
import SqlReview.Proofs.Record.NormalForms
import SqlReview.Proofs.Plan.Estimates
