import ClassSplit.Datum.Decode
import ClassSplit.Decimal.Shortest

/-!
Reading JSON texts. A text is read as far as it is well formed; from there on its data are broken,
and the reader of the data notices that only when it comes to that place. So of several faults the
first one in the text is reported, whether it concerns the form or the data.
-/

namespace ClassSplit.Json

def isBlank (c : Char) : Bool := c == ' ' || c == '\n' || c == '\t' || c == '\r'

def skip (cs : List Char) : List Char := cs.dropWhile isBlank

def endOfValue : String := "EOF while parsing a value"

def endOfString : String := "EOF while parsing a string"

/-- The rest of a word such as `null`. -/
def wordRest : List Char → List Char → Except String (List Char)
  | [], cs => .ok cs
  | _ :: _, [] => .error endOfValue
  | w :: ws, c :: cs => if w = c then wordRest ws cs else .error "expected ident"

def hexValue? (c : Char) : Option Nat :=
  if c.isDigit then some (c.toNat - '0'.toNat)
  else if 'a' ≤ c && c ≤ 'f' then some (c.toNat - 'a'.toNat + 10)
  else if 'A' ≤ c && c ≤ 'F' then some (c.toNat - 'A'.toNat + 10)
  else none

/-- The number of four hexadecimal digits. -/
def codeUnit : List Char → Except String (Nat × List Char)
  | a :: b :: c :: d :: cs =>
    match [a, b, c, d].mapM hexValue? with
    | some ds => .ok (ds.foldl (fun n v => n * 16 + v) 0, cs)
    | none => .error "invalid escape"
  | _ => .error endOfString

def isHighSurrogate (n : Nat) : Bool := 0xD800 ≤ n && n ≤ 0xDBFF

def isLowSurrogate (n : Nat) : Bool := 0xDC00 ≤ n && n ≤ 0xDFFF

/-- The character of an escape whose `u` has just been read. Characters beyond the first plane are
written as two code units. -/
def unicodeEscape (cs : List Char) : Except String (Char × List Char) := do
  let (high, rest) ← codeUnit cs
  if isLowSurrogate high then .error "lone leading surrogate in hex escape"
  else if isHighSurrogate high then
    match rest with
    | '\\' :: 'u' :: rest => do
      let (low, rest) ← codeUnit rest
      if isLowSurrogate low then
        .ok (Char.ofNat (0x10000 + (high - 0xD800) * 0x400 + (low - 0xDC00)), rest)
      else .error "lone leading surrogate in hex escape"
    | [] | ['\\'] => .error endOfString
    | _ => .error "unexpected end of hex escape"
  else .ok (Char.ofNat high, rest)

def shortEscape? : Char → Option Char
  | '"' => some '"'
  | '\\' => some '\\'
  | '/' => some '/'
  | 'b' => some '\x08'
  | 'f' => some '\x0c'
  | 'n' => some '\n'
  | 'r' => some '\r'
  | 't' => some '\t'
  | _ => none

/-- The content of a string whose opening quote has just been read. The fuel bounds the number of
characters. -/
def stringContent (fuel : Nat) (cs : List Char) : Except String (List Char × List Char) :=
  match fuel, cs with
  | 0, _ | _, [] => .error endOfString
  | _ + 1, '"' :: rest => .ok ([], rest)
  | _ + 1, ['\\'] => .error endOfString
  | fuel + 1, '\\' :: 'u' :: rest => do
    let (c, rest) ← unicodeEscape rest
    let (content, rest) ← stringContent fuel rest
    .ok (c :: content, rest)
  | fuel + 1, '\\' :: mark :: rest =>
    match shortEscape? mark with
    | none => .error "invalid escape"
    | some c => do
      let (content, rest) ← stringContent fuel rest
      .ok (c :: content, rest)
  | fuel + 1, c :: rest =>
    if c.toNat < 32 then
      .error "control character (\\u0000-\\u001F) found while parsing a string"
    else do
      let (content, rest) ← stringContent fuel rest
      .ok (c :: content, rest)

def string (cs : List Char) : Except String (String × List Char) := do
  let (content, rest) ← stringContent (cs.length + 1) cs
  .ok (String.ofList content, rest)

def natural (ds : List Char) : Nat := ds.foldl (fun n c => n * 10 + (c.toNat - '0'.toNat)) 0

/-- At least one digit. -/
def digits (cs : List Char) : Except String (List Char × List Char) :=
  match cs with
  | [] => .error endOfValue
  | c :: _ =>
    if c.isDigit then .ok (cs.takeWhile Char.isDigit, cs.dropWhile Char.isDigit)
    else .error "invalid number"

/-- Digits of which only a zero alone begins with zero. -/
def wholeDigits (cs : List Char) : Except String (List Char × List Char) := do
  let (ds, rest) ← digits cs
  if ds.head? = some '0' ∧ ds.length ≠ 1 then .error "invalid number" else .ok (ds, rest)

def fractionDigits : List Char → Except String (List Char × List Char)
  | '.' :: cs => digits cs
  | cs => .ok ([], cs)

/-- The exponent, if there is one. -/
def exponent : List Char → Except String (Option Int × List Char)
  | 'e' :: cs | 'E' :: cs => do
    let (negative, cs) := match cs with
      | '-' :: cs => (true, cs)
      | '+' :: cs => (false, cs)
      | cs => (false, cs)
    let (ds, rest) ← digits cs
    .ok (some (if negative then -(natural ds : Int) else natural ds), rest)
  | cs => .ok (none, cs)

/-- A number. Whole numbers beyond 64 bits are kept as they are shown. -/
def number (cs : List Char) : Except String (Datum × List Char) := do
  let (negative, cs) := match cs with
    | '-' :: cs => (true, cs)
    | cs => (false, cs)
  let (whole, cs) ← wholeDigits cs
  let (fraction, cs) ← fractionDigits cs
  let (power, cs) ← exponent cs
  let n := natural whole
  let fits := if negative then n ≠ 0 ∧ n ≤ 9223372036854775808 else n ≤ Datum.maxNumber
  if fraction.isEmpty ∧ power.isNone ∧ fits then
    .ok (.int (if negative then -(n : Int) else n), cs)
  else
    match (Decimal.mk (natural (whole ++ fraction)) (power.getD 0 - fraction.length)).rounded? with
    | some d => .ok (.float ((if negative then "-" else "") ++ d.compact), cs)
    | none => .error "number out of range"

/-- Data, and what follows them unless they are broken. -/
abbrev Reading (α : Type) := α × Option (List Char)

def ofScan (read : Except String (Datum × List Char)) : Reading Datum :=
  match read with
  | .ok (d, rest) => (d, some rest)
  | .error cause => (.broken cause, none)

def wordValue (word : String) (d : Datum) (cs : List Char) : Reading Datum :=
  match wordRest word.toList cs with
  | .ok rest => (d, some rest)
  | .error cause => (.broken cause, none)

/-- Puts what was read first in front of what is read after it, unless the first is broken. -/
def andThen {α : Type} (first : Reading α) (next : List Char → Reading (List α)) :
    Reading (List α) :=
  match first with
  | (x, none) => ([x], none)
  | (x, some rest) =>
    let (xs, rest) := next rest
    (x :: xs, rest)

def brokenItems (cause : String) : Reading (List Datum) := ([.broken cause], none)

def brokenEntries (cause : String) : Reading (List (String × Datum)) :=
  ([("", .broken cause)], none)

-- Every step takes at least one character, so that the length of the text bounds their number.
mutual

def value (fuel : Nat) (cs : List Char) : Reading Datum :=
  match fuel with
  | 0 => (.broken endOfValue, none)
  | fuel + 1 =>
    match skip cs with
    | [] => (.broken endOfValue, none)
    | 'n' :: rest => wordValue "ull" .null rest
    | 't' :: rest => wordValue "rue" (.bool true) rest
    | 'f' :: rest => wordValue "alse" (.bool false) rest
    | '"' :: rest => ofScan ((string rest).map fun (s, rest) => (.string s, rest))
    | '[' :: rest =>
      match skip rest with
      | ']' :: rest => (.array [], some rest)
      | [] => (.array [.broken "EOF while parsing a list"], none)
      | rest =>
        let (ds, rest) := items fuel rest
        (.array ds, rest)
    | '\x7b' :: rest =>
      match skip rest with
      | '\x7d' :: rest => (.object [], some rest)
      | [] => (.object (brokenEntries "EOF while parsing an object").1, none)
      | rest =>
        let (entries, rest) := entries fuel rest
        (.object entries, rest)
    | c :: rest =>
      if c.isDigit || c == '-' then ofScan (number (c :: rest))
      else (.broken "expected value", none)

/-- The items of an array, of which there is at least one more. -/
def items (fuel : Nat) (cs : List Char) : Reading (List Datum) :=
  match fuel with
  | 0 => brokenItems endOfValue
  | fuel + 1 =>
    andThen (value fuel cs) fun rest =>
      match skip rest with
      | ']' :: rest => ([], some rest)
      | ',' :: rest =>
        match skip rest with
        | [] => brokenItems endOfValue
        | ']' :: _ => brokenItems "trailing comma"
        | rest => items fuel rest
      | [] => brokenItems "EOF while parsing a list"
      | _ => brokenItems "expected `,` or `]`"

/-- The entries of an object, of which there is at least one more. -/
def entries (fuel : Nat) (cs : List Char) : Reading (List (String × Datum)) :=
  match fuel with
  | 0 => brokenEntries endOfValue
  | fuel + 1 =>
    match cs with
    | '"' :: rest =>
      match string rest with
      | .error cause => brokenEntries cause
      | .ok (name, rest) =>
        match skip rest with
        | ':' :: rest =>
          let (d, rest) := value fuel rest
          andThen ((name, d), rest) fun rest =>
            match skip rest with
            | '\x7d' :: rest => ([], some rest)
            | ',' :: rest =>
              match skip rest with
              | [] => brokenEntries endOfValue
              | '\x7d' :: _ => brokenEntries "trailing comma"
              | rest => entries fuel rest
            | [] => brokenEntries "EOF while parsing an object"
            | _ => brokenEntries "expected `,` or `\x7d`"
        | [] => brokenEntries "EOF while parsing an object"
        | _ => ([(name, .broken "expected `:`")], none)
    | _ => brokenEntries "key must be a string"

end

def trailing : DecodeError := .malformed "trailing characters"

/-- In a text, items that are not read any more are characters after its end. -/
def inText : DecodeError → DecodeError
  | .extraItems _ => trailing
  | e => e

/-- Reads a value of the domain from a text. -/
def decode {α : Type} (decoder : Datum.Decoder α) (text : String) : Except DecodeError α := do
  let (d, rest) := value (text.length + 1) text.toList
  let v ← (decoder d).mapError inText
  match rest with
  | none => .ok v
  | some rest => if (skip rest).isEmpty then .ok v else .error trailing

end ClassSplit.Json
