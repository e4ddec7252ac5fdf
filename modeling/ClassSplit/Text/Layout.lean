import ClassSplit.Text.Blank
import ClassSplit.Text.Case
import ClassSplit.Text.Offset

/-!
Lines and indentation. `indentBlock` and `dedentBlock` shift a whole block, and the line functions
find the ends of the line around a byte offset.
-/

namespace ClassSplit.Text

/-- The lines of a text with a flag for each whether a newline ends it. -/
def linesWithEnds : List Char → List (List Char × Bool)
  | [] => []
  | '\n' :: cs => ([], true) :: linesWithEnds cs
  | c :: cs =>
    match linesWithEnds cs with
    | [] => [([c], false)]
    | (line, ended) :: rest => (c :: line, ended) :: rest

/-- A carriage return in front of the newline belongs to the line's end. -/
def dropReturn (line : List Char) : List Char :=
  if line.getLast? = some '\r' then line.dropLast else line

/-- The lines of a text without their ends. -/
def lines (cs : List Char) : List (List Char) :=
  (linesWithEnds cs).map fun (line, ended) => if ended then dropReturn line else line

/-- Puts `indent` in front of every line that is not blank; blank lines become empty. -/
def indentBlock (indent block : List Char) : List Char :=
  (linesWithEnds block).flatMap fun (line, ended) =>
    (if allBlank line then [] else indent ++ line) ++ (if ended then ['\n'] else [])

/-- How many blank characters a line begins with. -/
def indentWidth (line : List Char) : Nat := (line.takeWhile isBlank).length

/-- The least indentation of the lines that are not blank. -/
def commonIndent (ls : List (List Char)) : Nat :=
  (((ls.filter (!allBlank ·)).map indentWidth).min?).getD 0

def joinLines (ls : List (List Char)) : List Char := List.intercalate ['\n'] ls

/-- Takes the common indentation away from every line; blank lines become empty. -/
def dedentBlock (block : List Char) : List Char :=
  let ls := lines block
  joinLines (ls.map fun line => if allBlank line then [] else line.drop (commonIndent ls))

/-- The offset at which the line around `offset` starts. -/
def lineStart (cs : List Char) (offset : Nat) : Nat :=
  offset - byteLength ((takeBytes offset cs).reverse.takeWhile (· != '\n'))

/-- The offset just after the newline that ends the line around `offset`, or the end of the text. -/
def lineEnd (cs : List Char) (offset : Nat) : Nat :=
  let rest := dropBytes offset cs
  offset + byteLength (rest.takeWhile (· != '\n')) + (if '\n' ∈ rest then 1 else 0)

/-- The number of the line around `offset`; the first line has number one. -/
def lineNumber (cs : List Char) (offset : Nat) : Nat := (takeBytes offset cs).count '\n' + 1

/-- The spaces and tabs in front of `offset` on its line, if nothing else stands there. -/
def leadingIndent (cs : List Char) (offset : Nat) : Option (List Char) :=
  let before := slice cs ⟨lineStart cs offset, offset⟩
  if before.all (fun c => c == ' ' || c == '\t') then some before else none

/-- Whether only blank characters stand between `offset` and the end of its line. -/
def restOfLineIsBlank (cs : List Char) (offset : Nat) : Bool :=
  allBlank (slice cs ⟨offset, lineEnd cs offset⟩)

/-- The name with its first character in upper case. -/
def capitalize : List Char → List Char
  | [] => []
  | c :: cs => upperCase c ++ cs

/-- The name with its first character in lower case. -/
def decapitalize : List Char → List Char
  | [] => []
  | c :: cs => lowerCase c ++ cs

end ClassSplit.Text
