import ClassSplit.Toml.Scalar
import ClassSplit.Toml.Table

/-!
Reading TOML documents. A document that cannot be read gives nothing; what is wrong with it is not
said.
-/

namespace ClassSplit.Toml

/-- Drops the blanks, line ends and comments in front of something. -/
def skipBlank (inComment : Bool) : List Char → List Char
  | [] => []
  | '\r' :: '\n' :: cs => skipBlank false cs
  | c :: cs =>
    if c = '\n' then skipBlank false cs
    else if inComment then if isPlain c then skipBlank true cs else c :: cs
    else if isSpace c then skipBlank false cs
    else if c = '#' then skipBlank true cs
    else c :: cs

def skipSpace (cs : List Char) : List Char := cs.dropWhile isSpace

/-- What follows the end of a line, in front of which only blanks and a comment may stand. -/
def lineEnd? (cs : List Char) : Option (List Char) :=
  let rest := skipSpace cs
  let rest := match rest with
    | '#' :: comment => comment.dropWhile isPlain
    | _ => rest
  match rest with
  | [] => some []
  | '\n' :: rest => some rest
  | '\r' :: '\n' :: rest => some rest
  | _ => none

def isBareKeyPart (c : Char) : Bool := c.isAlphanum || c == '_' || c == '-'

def simpleKey? : List Char → Option (String × List Char)
  | '"' :: cs => (quotedString cs).map fun (name, rest) => (String.ofList name, rest)
  | '\'' :: cs => (literalString cs).map fun (name, rest) => (String.ofList name, rest)
  | cs =>
    let name := cs.takeWhile isBareKeyPart
    if name.isEmpty then none else some (String.ofList name, cs.dropWhile isBareKeyPart)

-- Every step of the readers below takes at least one character, so that the length of the text
-- bounds their number.

/-- A key of simple keys with dots between them: all but the last, and the last. -/
def key? (fuel : Nat) (cs : List Char) : Option (List String × String × List Char) :=
  match fuel with
  | 0 => none
  | fuel + 1 => do
    let (name, rest) ← simpleKey? (skipSpace cs)
    match skipSpace rest with
    | '.' :: rest => do
      let (path, last, rest) ← key? fuel rest
      some (name :: path, last, rest)
    | rest => some ([], name, rest)

mutual

def value? (fuel : Nat) (cs : List Char) : Option (Datum × List Char) :=
  match fuel with
  | 0 => none
  | fuel + 1 =>
    match cs with
    | '[' :: rest => (items? fuel rest).map fun (items, rest) => (.array items, rest)
    | '\x7b' :: rest =>
      match skipSpace rest with
      | '\x7d' :: rest => some (.object [], rest)
      | rest => (inlineEntries? fuel [] rest).map fun (entries, rest) =>
          (.object (entryData entries), rest)
    | '"' :: _ | '\'' :: _ =>
      (string? cs).map fun (content, rest) => (.string (String.ofList content), rest)
    | cs => do
      let (w, rest) := word cs
      let d ← wordValue? w
      some (d, rest)

/-- The items of an array after its opening bracket. -/
def items? (fuel : Nat) (cs : List Char) : Option (List Datum × List Char) :=
  match fuel with
  | 0 => none
  | fuel + 1 =>
    match skipBlank false cs with
    | ']' :: rest => some ([], rest)
    | cs => do
      let (d, rest) ← value? fuel cs
      match skipBlank false rest with
      | ',' :: rest => do
        let (ds, rest) ← items? fuel rest
        some (d :: ds, rest)
      | ']' :: rest => some ([d], rest)
      | _ => none

/-- The entries of an inline table, of which there is at least one more. -/
def inlineEntries? (fuel : Nat) (entries : Entries) (cs : List Char) :
    Option (Entries × List Char) :=
  match fuel with
  | 0 => none
  | fuel + 1 => do
    let (path, name, rest) ← key? (fuel + 1) cs
    let '=' :: rest := rest | none
    let (d, rest) ← value? fuel (skipSpace rest)
    let entries ← put path name d entries
    match skipSpace rest with
    | ',' :: rest => inlineEntries? fuel entries rest
    | '\x7d' :: rest => some (entries, rest)
    | _ => none

end

/-- What has been read of a document: the finished tables, and the table that is being filled with
its path. -/
structure Progress where
  finished : Entries
  header : Option (List String × String)
  filling : Entries

namespace Progress

/-- Puts the table that is being filled where it belongs. -/
def close (p : Progress) : Option Entries :=
  match p.header with
  | none => some p.filling
  | some (path, name) =>
    (descend false (closeTable name p.filling) path false p.finished).map Prod.fst

/-- Goes on with the table or with a new one of the tables under a header. -/
def opening (p : Progress) (path : List String) (name : String) (several : Bool) :
    Option Progress := do
  let finished ← p.close
  let change := if several then openTables name else openTable name
  let (finished, filling) ← descend false change path false finished
  some ⟨finished, some (path, name), filling⟩

def entry (p : Progress) (path : List String) (name : String) (d : Datum) : Option Progress := do
  let filling ← put path name d p.filling
  some { p with filling }

end Progress

/-- A header after its opening bracket or brackets. -/
def header? (p : Progress) (several : Bool) (cs : List Char) : Option (Progress × List Char) := do
  let (path, name, rest) ← key? cs.length cs
  let rest ← match several, rest with
    | true, ']' :: ']' :: rest => some rest
    | false, ']' :: rest => some rest
    | _, _ => none
  let p ← p.opening path name several
  some (p, ← lineEnd? rest)

/-- A key and its value. -/
def entry? (p : Progress) (cs : List Char) : Option (Progress × List Char) := do
  let (path, name, rest) ← key? cs.length cs
  let '=' :: rest := rest | none
  let (d, rest) ← value? rest.length (skipSpace rest)
  let p ← p.entry path name d
  some (p, ← lineEnd? rest)

/-- Reads the lines of a document one after the other. -/
def lines? (fuel : Nat) (p : Progress) (cs : List Char) : Option Entries :=
  match fuel with
  | 0 => none
  | fuel + 1 =>
    match skipBlank false cs with
    | [] => p.close
    | '[' :: '[' :: rest => do
      let (p, rest) ← header? p true rest
      lines? fuel p rest
    | '[' :: rest => do
      let (p, rest) ← header? p false rest
      lines? fuel p rest
    | cs => do
      let (p, rest) ← entry? p cs
      lines? fuel p rest

/-- A mark of the byte order at the front does not count. -/
def dropMark : List Char → List Char
  | '\uFEFF' :: cs => cs
  | cs => cs

/-- The document that a text holds. -/
def read? (text : String) : Option Datum :=
  let cs := dropMark text.toList
  (lines? (cs.length + 1) ⟨[], none, []⟩ cs).map fun entries => .object (entryData entries)

end ClassSplit.Toml
