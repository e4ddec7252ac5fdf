import ClassSplit.Datum.Basic

/-!
Data written as JSON, on one line or spread over several.
-/

namespace ClassSplit.Json

def hexDigit (n : Nat) : Char := if n < 10 then Char.ofNat (48 + n) else Char.ofNat (87 + n)

/-- How a character is written in a string. -/
def escape (c : Char) : List Char :=
  match c with
  | '"' => ['\\', '"']
  | '\\' => ['\\', '\\']
  | '\n' => ['\\', 'n']
  | '\r' => ['\\', 'r']
  | '\t' => ['\\', 't']
  | '\x08' => ['\\', 'b']
  | '\x0c' => ['\\', 'f']
  | c =>
    if c.toNat < 32 then
      ['\\', 'u', '0', '0', hexDigit (c.toNat / 16), hexDigit (c.toNat % 16)]
    else [c]

def quoted (s : String) : String := "\"" ++ String.ofList (s.toList.flatMap escape) ++ "\""

/-- The value of a datum that has no parts. -/
def leaf : Datum → String
  | .bool b => toString b
  | .int i => toString i
  | .float shown => shown
  | .string s => quoted s
  | _ => "null"

mutual

/-- Written on one line. -/
def compact : Datum → String
  | .array items => "[" ++ ",".intercalate (compactItems items) ++ "]"
  | .object entries => "\x7b" ++ ",".intercalate (compactEntries entries) ++ "\x7d"
  | d => leaf d

def compactItems : List Datum → List String
  | [] => []
  | d :: ds => compact d :: compactItems ds

def compactEntries : List (String × Datum) → List String
  | [] => []
  | (name, d) :: rest => (quoted name ++ ":" ++ compact d) :: compactEntries rest

end

/-- Parts between two brackets, each on a line of its own. -/
def spread (margin opening closing : String) (parts : List String) : String :=
  if parts.isEmpty then opening ++ closing
  else
    opening ++ "\n" ++ ",\n".intercalate (parts.map fun part => margin ++ "  " ++ part) ++ "\n"
      ++ margin ++ closing

mutual

/-- Written over several lines, with a margin in front of all but the first. -/
def pretty (margin : String) : Datum → String
  | .array items => spread margin "[" "]" (prettyItems (margin ++ "  ") items)
  | .object entries => spread margin "\x7b" "\x7d" (prettyEntries (margin ++ "  ") entries)
  | d => leaf d

def prettyItems (margin : String) : List Datum → List String
  | [] => []
  | d :: ds => pretty margin d :: prettyItems margin ds

def prettyEntries (margin : String) : List (String × Datum) → List String
  | [] => []
  | (name, d) :: rest => (quoted name ++ ": " ++ pretty margin d) :: prettyEntries margin rest

end

end ClassSplit.Json
