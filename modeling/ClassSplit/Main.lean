import ClassSplit.CommandLine.Run
import ClassSplit.Json.Text

/-!
The program on the files of the machine.
-/

namespace ClassSplit.CommandLine

def causeOf (e : IO.Error) : String :=
  match e with
  | .noFileOrDirectory .. => FileMap.missing
  | e => toString e

/-- The files of the machine. -/
def machineFiles : FileAccess IO where
  read path := do
    try return .ok (← IO.FS.readFile path)
    catch e => return .error (causeOf e)
  isPresent path := do
    try
      IO.FS.withFile path .read fun _ => return true
    catch _ => return false
  write path text := do
    try
      IO.FS.writeFile path text
      return .ok ()
    catch e => return .error (causeOf e)
  remove path := do
    try IO.FS.removeFile path
    catch _ => return ()

def usageText : String :=
  "error: expected extract or plan with --request FILE [--facts FILE] [--config FILE] "
    ++ "[--source FILE] [--write], or schema"

def Complaint.text : Complaint → String
  | .usage => usageText
  | .message text => text

end ClassSplit.CommandLine

open ClassSplit CommandLine in
def main (args : List String) : IO UInt32 := do
  let report ← run machineFiles args
  if let some d := report.output then IO.println (Json.pretty "" d)
  if let some complaint := report.complaint then IO.eprintln complaint.text
  return report.exitCode.toUInt32
