import ClassSplit.Settings.Basic
import ClassSplit.Toml.Document

/-!
Settings files. Messages about them do not show the strings that they contain, as far as these stand
between quotes.
-/

namespace ClassSplit

/-- What follows the quoted string whose opening quote has just been read, if it ends. -/
def afterQuoted? : List Char → Option (List Char)
  | [] => none
  | '"' :: cs => some cs
  | ['\\'] => none
  | '\\' :: c :: cs => if c = '\n' then none else afterQuoted? cs
  | _ :: cs => afterQuoted? cs

theorem length_afterQuoted?_lt {cs rest : List Char} (h : afterQuoted? cs = some rest) :
    rest.length < cs.length := by
  fun_induction afterQuoted? cs <;> simp_all <;> grind

/-- A message in which other strings stand between quotes. -/
def redact (cs : List Char) : List Char :=
  match cs with
  | [] => []
  | c :: cs =>
    if c = '"' then
      match h : afterQuoted? cs with
      | some rest => "\"<redacted>\"".toList ++ redact rest
      | none => c :: redact cs
    else c :: redact cs
termination_by cs.length
decreasing_by
  · have := length_afterQuoted?_lt h
    simp only [List.length_cons]; omega
  · simp
  · simp

inductive SettingsError where
  /-- The text is not a TOML document. -/
  | malformed
  | unreadable (error : DecodeError)
  deriving DecidableEq

namespace SettingsError

/-- What is wrong, without the strings in it. -/
def cause : SettingsError → String
  | malformed => "not a TOML document"
  | unreadable error => String.ofList (redact error.message.toList)

def message (e : SettingsError) : String := "failed to parse toml config: " ++ e.cause

end SettingsError

/-- The settings that a file holds. -/
def Settings.ofFile (text : String) : Except SettingsError Settings :=
  match Toml.read? text with
  | none => .error .malformed
  | some d => (Settings.ofDatum .toml d).mapError .unreadable

end ClassSplit
