import ClassSplit.CommandLine.Arguments
import ClassSplit.CommandLine.Files
import ClassSplit.Extraction.Basic
import ClassSplit.Json.Reader
import ClassSplit.Model.Exchange
import ClassSplit.Settings.File
import ClassSplit.Settings.Schema

/-!
The program as a function of its arguments and of the files. Files are written only after everything
else has succeeded.
-/

namespace ClassSplit.CommandLine

inductive Complaint where
  /-- The arguments cannot be understood. -/
  | usage
  | message (text : String)
  deriving DecidableEq

/-- How the program ends: its exit code, the data that it prints, and what it complains about. -/
structure Report where
  exitCode : Nat
  output : Option Datum
  complaint : Option Complaint

namespace Report

def refusal (text : String) : Report := ⟨2, none, some (.message text)⟩

def usage : Report := ⟨2, none, some .usage⟩

/-- The text of the help is left out. -/
def help : Report := ⟨0, none, none⟩

/-- The exit code tells whether what was asked for has come about. -/
def answer (isPositive : Bool) (output : Datum) : Report :=
  ⟨if isPositive then 0 else 1, some output, none⟩

end Report

/-- Everything that is read for a request. -/
structure Input where
  request : Request
  facts : Option Facts
  settings : Settings
  path : String
  source : String

section

variable {m : Type → Type} [Monad m] (files : FileAccess m)

/-- Says in what a file operation has failed. -/
def attempting {α : Type} (what : String) (action : m (Except String α)) : ExceptT String m α :=
  ExceptT.adapt (fun cause => what ++ ": " ++ cause) (ExceptT.mk action)

def readText (path : String) : ExceptT String m String :=
  attempting ("failed to read " ++ path) (files.read path)

def readJson {α : Type} (decoder : Datum.Decoder α) (path : String) : ExceptT String m α := do
  let text ← readText files path
  match Json.decode decoder text with
  | .ok value => return value
  | .error e => throw ("invalid JSON in " ++ path ++ ": " ++ e.message)

/-- The cause of a failure is told twice, once as a part of it and once as its cause. -/
def readSettings (path : String) : ExceptT String m Settings := do
  let text ← ExceptT.adapt
    (fun cause => "failed to read config file " ++ path ++ ": " ++ cause ++ ": " ++ cause)
    (ExceptT.mk (files.read path))
  match Settings.ofFile text with
  | .ok settings => return settings
  | .error e => throw e.message

/-- Reads the settings, the request, the facts and the source, in this order. -/
def readInput (options : Options) : ExceptT String m Input := do
  let settings ← match options.settings with
    | some path => readSettings files path
    | none => pure {}
  let request ← readJson files Request.ofDatum options.request
  let facts ← options.facts.mapM (readJson files Facts.ofDatum)
  let path := options.source.getD request.path
  let source ← readText files path
  return { request, facts, settings, path, source }

/-- The path of the new file: its name in the directory of the file that was read. -/
def writtenPath (newPath source : String) : String :=
  match Path.fileName? newPath, Path.parent? source with
  | some name, some directory => Path.join directory name
  | _, _ => newPath

/-- Writes the old source; if this fails, the new file is removed again. -/
def writeOld (path source text : String) : m (Except String Unit) := do
  match ← files.write source text with
  | .ok _ => return .ok ()
  | .error cause =>
    files.remove path
    return .error cause

/-- Writes both files or none. A file that exists is never the new one. -/
def writeBoth (result : Extracted) (source : String) : ExceptT String m Unit := do
  let path := writtenPath result.newPath source
  if ← files.isPresent path then throw ("refusing to overwrite existing " ++ path)
  attempting ("failed to write " ++ path) (files.write path result.newSource)
  attempting ("failed to write " ++ source) (writeOld files path source result.oldSource)

/-- The text about an error, with its cause if that is another error. -/
def errorText (e : ExtractionError) : String :=
  "extract class failed: " ++ e.message ++
    match e with
    | .malformedResult _ => ": " ++ JavaSource.ParseError.message .malformed
    | _ => ""

def runExtract (options : Options) : ExceptT String m Report := do
  let input ← readInput files options
  match Extraction.extract input.settings input.request input.facts input.source with
  | .error e => throw (errorText e)
  | .ok outcome =>
    if options.write then
      if let some result := outcome.result then writeBoth files result input.path
    return .answer outcome.isSuccess outcome.toDatum

def runPlan (options : Options) : ExceptT String m Report := do
  let input ← readInput files options
  match Extraction.plan input.settings input.request input.facts input.source with
  | .error e => throw ("failed to parse " ++ input.path ++ ": " ++ e.message)
  | .ok plan => return .answer plan.isApproved plan.toDatum

/-- The report of a run, also of one that was given up. -/
def reported (run : ExceptT String m Report) : m Report := do
  match ← run.run with
  | .ok report => return report
  | .error text => return Report.refusal text

def run (args : List String) : m Report :=
  match Invocation.ofArguments args with
  | .error .misuse => return .usage
  | .error .help => return .help
  | .ok .schema => return .answer true Settings.schema
  | .ok (.extract options) => reported (runExtract files options)
  | .ok (.plan options) => reported (runPlan files options)

end

/-- A run on a map of files, with the map after it. -/
def runOn (args : List String) (files : FileMap) : Report × FileMap :=
  (run FileMap.access args).run files

end ClassSplit.CommandLine
