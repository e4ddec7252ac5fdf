import ClassSplit.Settings.Basic
import ClassSplit.Text.Letter

/-!
Which log messages are shown. Directives give the least severe level for a target or for all
targets; later ones replace earlier ones for the same target.
-/

namespace ClassSplit

inductive LogLevel where
  | off
  | error
  | warn
  | info
  | debug
  | trace
  deriving DecidableEq

namespace LogLevel

def label : LogLevel → String
  | off => "off"
  | error => "error"
  | warn => "warn"
  | info => "info"
  | debug => "debug"
  | trace => "trace"

def all : List LogLevel := [off, error, warn, info, debug, trace]

def lowerAscii (s : String) : String := String.ofList (s.toList.map Char.toLower)

/-- A level by its name in any case, or by its number. -/
def ofString? (s : String) : Option LogLevel :=
  (all.find? (·.label == lowerAscii s)).or
    (match s.toList with
      | '+' :: cs => number? cs
      | cs => number? cs)
where
  number? (cs : List Char) : Option LogLevel :=
    if cs.isEmpty || !cs.all Char.isDigit then none
    else
      match cs.dropWhile (· == '0') with
      | [] => some off
      | [c] => all[c.toNat - '0'.toNat]?
      | _ => none

end LogLevel

structure LogDirective where
  /-- All targets if none is given. -/
  target : Option String
  level : LogLevel
  deriving DecidableEq

namespace LogDirective

def text (d : LogDirective) : String :=
  match d.target with
  | some target => target ++ "=" ++ d.level.label
  | none => d.level.label

/-- Whether a directive can begin with a character. -/
def canBegin (c : Char) : Bool :=
  Text.isAlphabetic c || Text.isNumeric c || c == '-' || c == ':' || c == '_'

/-- Reads a level, a target, or both with an equals sign between them. A target without a level
shows everything. -/
def ofString? (s : String) : Option LogDirective :=
  if !s.toList.head?.any canBegin || s.toList.contains '[' then none
  else
    match s.toList.dropWhile (· != '=') with
    | [] =>
      match LogLevel.ofString? s with
      | some level => some ⟨none, level⟩
      | none => some ⟨some s, .trace⟩
    | _ :: level =>
      let target := some (String.ofList (s.toList.takeWhile (· != '=')))
      if level.isEmpty then some ⟨target, .trace⟩
      else (LogLevel.ofString? (String.ofList level)).map (⟨target, ·⟩)

/-- The pieces of a text between commas. -/
def betweenCommas : List Char → List (List Char)
  | [] => [[]]
  | c :: cs =>
    match betweenCommas cs with
    | [] => [[c]]
    | piece :: rest => if c = ',' then [] :: piece :: rest else (c :: piece) :: rest

/-- The directives of a text, if all of them can be read. -/
def listOfString? (s : String) : Option (List LogDirective) :=
  ((betweenCommas s.toList).filter (!·.isEmpty)).mapM fun piece => ofString? (String.ofList piece)

end LogDirective

/-- The directives that count, at most one for each target. -/
abbrev LogFilter := List LogDirective

namespace LogFilter

/-- Adds a directive in the place of one for the same target. -/
def add (filter : LogFilter) (d : LogDirective) : LogFilter :=
  filter.filter (·.target != d.target) ++ [d]

/-- Without any directive errors are shown. -/
def ofDirectives (ds : List LogDirective) : LogFilter :=
  if ds.isEmpty then [⟨none, .error⟩] else ds.foldl add []

def ofString? (s : String) : Option LogFilter := (LogDirective.listOfString? s).map ofDirectives

end LogFilter

namespace LogSettings

/-- The level as a directive: the default for a blank one, a name of a level in lower case, and
anything else as it is. -/
def directives (l : LogSettings) : String :=
  let plain := String.ofList (Text.trim l.level.toList)
  let name := LogLevel.lowerAscii plain
  if plain.isEmpty then "warn"
  else if name == "warning" then "warn"
  else if ["trace", "debug", "info", "warn", "error"].contains name then name
  else plain

/-- The filter of the settings alone; warnings are shown if they cannot be read. -/
def ownFilter (l : LogSettings) : LogFilter :=
  (LogFilter.ofString? l.directives).getD [⟨none, .warn⟩]

/-- The filter of the settings with the directives of the environment behind them. If both together
cannot be read, those of the environment count, and if these cannot be read either, the settings. -/
def filter (l : LogSettings) (environment : Option String) : LogFilter :=
  let given := (environment.map fun e => String.ofList (Text.trim e.toList)).filter (!·.isEmpty)
  match given with
  | none => l.ownFilter
  | some e =>
    ((LogFilter.ofString? (l.directives ++ "," ++ e)).or (LogFilter.ofString? e)).getD l.ownFilter

end LogSettings

end ClassSplit
