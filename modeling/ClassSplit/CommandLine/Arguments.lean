/-!
The arguments of the program: a command and its options.
-/

namespace ClassSplit.CommandLine

/-- The files that a request concerns. -/
structure Options where
  request : String
  facts : Option String
  settings : Option String
  /-- Where the source is read from instead of the path in the request. -/
  source : Option String
  /-- Whether the generated files are written. -/
  write : Bool
  deriving DecidableEq

inductive Invocation where
  | extract (options : Options)
  | plan (options : Options)
  | schema
  deriving DecidableEq

/-- Why there is no invocation. -/
inductive Interruption where
  /-- The arguments cannot be understood. -/
  | misuse
  /-- They ask for help or for the version. -/
  | help
  deriving DecidableEq

/-- The options as they are collected; each may be given once. -/
structure GivenOptions where
  request : Option String := none
  facts : Option String := none
  settings : Option String := none
  source : Option String := none
  write : Bool := false

namespace GivenOptions

/-- Gives an option its value. -/
def assign (g : GivenOptions) (name value : String) : Except Interruption GivenOptions :=
  if value.isEmpty then .error .misuse
  else
    match name with
    | "--request" => once g.request { g with request := some value }
    | "--facts" => once g.facts { g with facts := some value }
    | "--config" => once g.settings { g with settings := some value }
    | "--source" => once g.source { g with source := some value }
    | _ => .error .misuse
where
  once (before : Option String) (g : GivenOptions) : Except Interruption GivenOptions :=
    if before.isSome then .error .misuse else .ok g

/-- Whether an argument looks like an option; a dash alone does not. -/
def looksLikeOption (arg : String) : Bool :=
  match arg.toList with
  | '-' :: _ :: _ => true
  | _ => false

/-- Splits an argument at its first equals sign. -/
def splitEquals? (arg : String) : Option (String × String) :=
  match arg.toList.dropWhile (· != '=') with
  | [] => none
  | _ :: value => some (String.ofList (arg.toList.takeWhile (· != '=')), String.ofList value)

/-- Help is a flag of every command. What stands behind its letter is not read. -/
def asksForHelp (arg : String) : Bool :=
  match arg.toList with
  | '-' :: 'h' :: _ => true
  | _ => arg == "--help"

/-- Reads options one after the other. Two dashes end the options, and nothing may follow them. -/
def read (g : GivenOptions) : List String → Except Interruption GivenOptions
  | [] => .ok g
  | ["--"] => .ok g
  | "--write" :: args => if g.write then .error .misuse else read { g with write := true } args
  | arg :: args =>
    if asksForHelp arg then .error .help
    else
      match splitEquals? arg with
      | some (name, value) => do
        let g ← g.assign name value
        read g args
      | none =>
        match args with
        | value :: args =>
          if looksLikeOption value then .error .misuse
          else do
            let g ← g.assign arg value
            read g args
        | [] => .error .misuse

def finish (g : GivenOptions) : Except Interruption Options :=
  match g.request with
  | some request =>
    .ok { request, facts := g.facts, settings := g.settings, source := g.source, write := g.write }
  | none => .error .misuse

end GivenOptions

namespace Invocation

def commands : List String := ["extract", "plan", "schema", "help"]

def asksForVersion (arg : String) : Bool :=
  match arg.toList with
  | '-' :: 'V' :: _ => true
  | _ => arg == "--version"

def readOptions (args : List String) : Except Interruption Options := do
  (← GivenOptions.read {} args).finish

/-- What the arguments ask for. -/
def ofArguments : List String → Except Interruption Invocation
  | "extract" :: args => return .extract (← readOptions args)
  | "plan" :: args => return .plan (← readOptions args)
  | ["schema"] | ["schema", "--"] => .ok .schema
  | "schema" :: arg :: _ =>
    .error (if GivenOptions.asksForHelp arg then .help else .misuse)
  | "help" :: names =>
    .error (if names.length ≤ 1 && names.all commands.contains then .help else .misuse)
  | arg :: _ =>
    .error (if GivenOptions.asksForHelp arg || asksForVersion arg then .help else .misuse)
  | [] => .error .misuse

end Invocation

end ClassSplit.CommandLine
