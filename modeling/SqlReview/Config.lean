import SqlReview.Layout.Page
import SqlReview.Record.Document

/-!
What can be tuned: the layout, the row counts that make a scan large, and which insight rules run.
Every member has a default.
-/
namespace SqlReview

/-- Row counts from which a scan is large, and from which it is called high-volume. -/
structure Thresholds where
  largeTable : Nat
  highRows : Nat
deriving Repr, DecidableEq

def Thresholds.default : Thresholds := ⟨1000, 10000⟩

def Layout.Settings.default : Layout.Settings := ⟨2, true⟩

inductive RuleSet where
  | placeholder
  | builtin
deriving Repr, DecidableEq

def RuleSet.all : List RuleSet := [.placeholder, .builtin]

def RuleSet.name : RuleSet → Text
  | .placeholder => "placeholder"
  | .builtin => "builtin"

structure Config where
  layout : Layout.Settings
  thresholds : Thresholds
  ruleSet : RuleSet
deriving Repr, DecidableEq

inductive ConfigError where
  /-- The file cannot be read as text. -/
  | unreadable
  /-- The text is no document, or its members do not fit. -/
  | malformed
  | zeroIndent
  | thresholdsInverted (largeTable highRows : Nat)
deriving Repr, DecidableEq

def ConfigError.detail : ConfigError → Text
  | .zeroIndent => "formatter.indent_size must be at least 1"
  | .thresholdsInverted large high =>
    "plan.large_table_threshold (" ++ Text.ofNat large ++ ") exceeds plan.high_row_threshold (" ++
      Text.ofNat high ++ ")"
  | _ => []

def ConfigError.message (e : ConfigError) : Text := "Invalid configuration: " ++ e.detail

namespace Config

def default : Config := ⟨.default, .default, .placeholder⟩

def validate (config : Config) : Except ConfigError Unit :=
  if config.layout.indentSize = 0 then .error .zeroIndent
  else if config.thresholds.highRows < config.thresholds.largeTable then
    .error (.thresholdsInverted config.thresholds.largeTable config.thresholds.highRows)
  else .ok ()

end Config

section Codec

variable {V : Type} [Document V]

def Layout.Settings.read? (v : V) : Option Layout.Settings := do
  let m ← Record.members? 2 v
  let indentSize ← m.defaulted "indent_size" 0 2 Document.natural?
  let uppercaseKeywords ← m.defaulted "uppercase_keywords" 1 true Document.flag?
  some { indentSize, uppercaseKeywords }

def Layout.Settings.toJson (settings : Layout.Settings) : Json :=
  .ofFields [("indent_size", .ofNat settings.indentSize),
    ("uppercase_keywords", .bool settings.uppercaseKeywords)]

def Thresholds.read? (v : V) : Option Thresholds := do
  let m ← Record.members? 2 v
  let largeTable ← m.defaulted "large_table_threshold" 0 1000 Document.natural?
  let highRows ← m.defaulted "high_row_threshold" 1 10000 Document.natural?
  some { largeTable, highRows }

def Thresholds.toJson (t : Thresholds) : Json :=
  .ofFields [("large_table_threshold", .ofNat t.largeTable),
    ("high_row_threshold", .ofNat t.highRows)]

def RuleSet.read? (v : V) : Option RuleSet := Record.choice? RuleSet.all RuleSet.name v

def RuleSet.toJson (rules : RuleSet) : Json := .string rules.name

def Config.read? (v : V) : Option Config := do
  let m ← Record.members? 3 v
  let layout ← m.defaulted "formatter" 0 .default Layout.Settings.read?
  let thresholds ← m.defaulted "plan" 1 .default Thresholds.read?
  let ruleSet ← m.defaulted "rule_set" 2 .placeholder RuleSet.read?
  some { layout, thresholds, ruleSet }

def Config.toJson (config : Config) : Json :=
  .ofFields [("formatter", config.layout.toJson), ("plan", config.thresholds.toJson),
    ("rule_set", config.ruleSet.toJson)]

end Codec

end SqlReview
