/-!
Structured data as configuration files, requests and answers hold it. Numbers with a fraction are
only ever shown, so they are kept as the text that shows them. Data may be read from a text that
breaks off or is malformed from some place on; what comes before that place is still there.
-/

namespace ClassSplit

inductive Datum where
  | null
  | bool (b : Bool)
  | int (i : Int)
  /-- A number with a fraction or an exponent, as it is shown. -/
  | float (shown : String)
  | string (s : String)
  /-- A date or a time. -/
  | date
  /-- What stands in the place of data that could not be read. -/
  | broken (cause : String)
  | array (items : List Datum)
  /-- Named entries in the order in which they are written. -/
  | object (entries : List (String × Datum))

namespace Datum

instance : Inhabited Datum := ⟨null⟩

def ofStrings (ss : List String) : Datum := array (ss.map string)

def ofOption (o : Option String) : Datum := (o.map string).getD null

def ofNat (n : Nat) : Datum := int n

mutual

/-- The first place that could not be read. -/
def fault? : Datum → Option String
  | broken cause => some cause
  | array items => faultAmong? items
  | object entries => faultInEntries? entries
  | _ => none

def faultAmong? : List Datum → Option String
  | [] => none
  | d :: ds => d.fault?.or (faultAmong? ds)

def faultInEntries? : List (String × Datum) → Option String
  | [] => none
  | (_, d) :: rest => d.fault?.or (faultInEntries? rest)

end

/-- The entry under a name. -/
def entry? (name : String) : Datum → Option Datum
  | object entries => entries.lookup name
  | _ => none

end Datum

end ClassSplit
