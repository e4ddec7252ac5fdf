import ClassSplit.Datum.Decode
import ClassSplit.Plan.Verdict

/-!
The settings of an extraction, with the values that hold where a file says nothing, and their form
as structured data.
-/

namespace ClassSplit

open Datum

inductive IndentStyle where
  | spaces
  | tabs
  deriving DecidableEq

namespace IndentStyle

def label : IndentStyle → String
  | spaces => "spaces"
  | tabs => "tabs"

def variants : List (String × IndentStyle) := [("spaces", spaces), ("tabs", tabs)]

end IndentStyle

structure LogSettings where
  /-- A level, or directives for several targets. -/
  level : String := "warn"
  json : Bool := false
  deriving DecidableEq

namespace LogSettings

def toDatum (l : LogSettings) : Datum :=
  .object [("level", .string l.level), ("json", .bool l.json)]

def shape (format : DataFormat) : Shape :=
  { title := "LoggingConfig", slots := [allowed "level" asString, allowed "json" asBool]
    strict := true, format, absentInArray := ["level", "json"] }

def ofDatum (format : DataFormat) : Decoder LogSettings := fun d => do
  let d ← (shape format).entries d
  .ok { level := ← fieldOr d "level" asString "warn", json := ← fieldOr d "json" asBool false }

end LogSettings

structure Settings where
  /-- How many rounds the completion of a selection may take. -/
  repairRounds : Nat := defaultRepairRounds
  /-- The name of the field that holds the new object; by default it follows the class name. -/
  helperName : Option String := none
  indentWidth : Nat := 4
  indentStyle : IndentStyle := .spaces
  /-- The extension of the new file; by default that of the source file. -/
  extension : Option String := none
  logging : LogSettings := {}
  deriving DecidableEq

namespace Settings

/-- One level of indentation. -/
def indent (s : Settings) : String :=
  match s.indentStyle with
  | .spaces => String.ofList (List.replicate s.indentWidth ' ')
  | .tabs => "\t"

def toDatum (s : Settings) : Datum :=
  .object
    [("max_repair_iterations", .ofNat s.repairRounds),
      ("helper_field_name", .ofOption s.helperName), ("indent_width", .ofNat s.indentWidth),
      ("indent_style", .string s.indentStyle.label), ("file_extension", .ofOption s.extension),
      ("logging", s.logging.toDatum)]

def shape (format : DataFormat) : Shape :=
  { title := "ExtractClassConfig"
    slots :=
      [allowed "max_repair_iterations" asNat, allowed "helper_field_name" (asOption asString),
        allowed "indent_width" asNat,
        allowed "indent_style" (asVariant format IndentStyle.variants),
        allowed "file_extension" (asOption asString),
        allowed "logging" (LogSettings.ofDatum format)]
    strict := true
    format
    absentInArray :=
      ["max_repair_iterations", "helper_field_name", "indent_width", "indent_style",
        "file_extension", "logging"] }

def ofDatum (format : DataFormat) : Decoder Settings := fun d => do
  let d ← (shape format).entries d
  .ok
    { repairRounds := ← fieldOr d "max_repair_iterations" asNat defaultRepairRounds
      helperName := ← fieldOr d "helper_field_name" (asOption asString) none
      indentWidth := ← fieldOr d "indent_width" asNat 4
      indentStyle := ← fieldOr d "indent_style" (asVariant format IndentStyle.variants) .spaces
      extension := ← fieldOr d "file_extension" (asOption asString) none
      logging := ← fieldOr d "logging" (LogSettings.ofDatum format) {} }

end Settings

end ClassSplit
