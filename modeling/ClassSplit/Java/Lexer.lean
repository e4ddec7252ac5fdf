import ClassSplit.Java.Lexeme

/-!
Dividing a source text into tokens and comments. Inside a string the blanks count, so the lexer
remembers in which strings it stands; a string may hold an expression, which may hold strings.
-/

namespace ClassSplit.Java

/-- What the lexer stands in. -/
inductive Frame where
  /-- A string that is closed by one quote. -/
  | line
  /-- A string that is closed by three quotes. -/
  | textBlock
  /-- An expression inside a string, with the number of its braces that are open. -/
  | embedded (depth : Nat)

inductive Lexeme where
  | gap
  | token (kind : Kind)
  | comment (kind : Kind)
  /-- A part of a string for which the tree has no node. -/
  | silent

/-- One step of the lexer: what was found, its text, what is left, and where that stands. -/
structure LexStep where
  lexeme : Lexeme
  text : List Char
  rest : List Char
  frames : List Frame

namespace LexStep

/-- A step over the next `n` characters. -/
def take (lexeme : Lexeme) (n : Nat) (cs : List Char) (frames : List Frame) : LexStep :=
  ⟨lexeme, cs.take n, cs.drop n, frames⟩

/-- A step up to what is left. -/
def upTo (lexeme : Lexeme) (rest cs : List Char) (frames : List Frame) : LexStep :=
  take lexeme (cs.length - rest.length) cs frames

/-- A step over a token that is known by its text. -/
def mark (text : String) (cs : List Char) (frames : List Frame) : LexStep :=
  take (.token (.token text)) text.length cs frames

end LexStep

open LexStep

/-- How many characters the escape sequence takes whose backslash has just been read. -/
def escapeLength? : List Char → Option Nat
  | 'x' :: a :: b :: _ => if Number.isHex a && Number.isHex b then some 3 else none
  | 'x' :: _ => none
  | 'u' :: '\x7b' :: cs =>
    let code := cs.takeWhile Number.isHex
    if !code.isEmpty && cs[code.length]? = some '\x7d' then some (code.length + 3) else none
  | 'u' :: cs => if (cs.take 4).length = 4 && (cs.take 4).all Number.isHex then some 5 else none
  | c :: cs =>
    if Number.isOctal c then some (1 + ((cs.take 2).takeWhile Number.isOctal).length) else some 1
  | [] => none

/-- The characters after which a text block has an escape sequence of its own. -/
def blockEscapes : List Char := "abfnrtvxu'\"\\?".toList

/-- The rest of a part of a text block that begins with a quote. -/
def afterQuoted : List Char → List Char
  | '\\' :: '"' :: cs => afterQuoted cs
  | c :: cs => if c = '"' ∨ c = '\\' then c :: cs else afterQuoted cs
  | [] => []

def isPlainInString (c : Char) : Bool := c != '"' && c != '\\'

/-- A step inside a string. -/
def stepInString (frame : Frame) (frames : List Frame) (cs : List Char) : Option LexStep :=
  let block := match frame with
    | .textBlock => true
    | _ => false
  match cs with
  | '"' :: '"' :: '"' :: _ => some (mark (if block then "\"\"\"" else "\"") cs frames)
  | '"' :: tail =>
    if block then
      some (upTo (.token .multilineStringFragment) (afterQuoted tail) cs (frame :: frames))
    else some (mark "\"" cs frames)
  | '\\' :: '\x7b' :: _ => some (mark "\\\x7b" cs (.embedded 0 :: frame :: frames))
  | '\\' :: tail =>
    let own := match tail with
      | c :: _ => block && !blockEscapes.contains c && (escapeLength? tail).getD 1 == 1
      | [] => false
    if own then some (take .silent 2 cs (frame :: frames))
    else
      (escapeLength? tail).map fun n =>
        take (.token .escapeSequence) (n + 1) cs (frame :: frames)
  | _ :: _ =>
    let kind := if block then Kind.multilineStringFragment else Kind.stringFragment
    some (upTo (.token kind) (cs.dropWhile isPlainInString) cs (frame :: frames))
  | [] => none

/-- The rest of a character literal whose opening quote has just been read. A literal may hold
several characters, but at least one. -/
def afterCharLiteral? (some? : Bool) : List Char → Option (List Char)
  | '\\' :: _ :: cs => afterCharLiteral? true cs
  | '\'' :: cs => if some? then some cs else none
  | c :: cs => if c = '\n' ∨ c = '\\' then none else afterCharLiteral? true cs
  | [] => none

/-- The rest of a block comment whose opening has just been read. -/
def afterBlockComment? : List Char → Option (List Char)
  | '*' :: '/' :: cs => some cs
  | _ :: cs => afterBlockComment? cs
  | [] => none

/-- The frames after a mark that begins with a character; only braces change them. -/
def framesAfter (c : Char) : List Frame → List Frame
  | .embedded depth :: frames =>
    if c = '\x7b' then .embedded (depth + 1) :: frames
    else if c = '\x7d' then
      if depth = 0 then frames else .embedded (depth - 1) :: frames
    else .embedded depth :: frames
  | frames => frames

/-- A step outside of strings. -/
def stepInCode (frames : List Frame) (cs : List Char) : Option LexStep :=
  let comment? : Option LexStep := match cs with
    | '/' :: '/' :: tail =>
      some (upTo (.comment .lineComment) (tail.dropWhile (· != '\n')) cs frames)
    | '/' :: '*' :: tail =>
      (afterBlockComment? tail).map fun rest => upTo (.comment .blockComment) rest cs frames
    | _ => none
  match comment?, cs with
  | some step, _ => some step
  | none, '"' :: '"' :: '"' :: _ => some (mark "\"\"\"" cs (.textBlock :: frames))
  | none, '"' :: _ => some (mark "\"" cs (.line :: frames))
  | none, '\'' :: tail =>
    (afterCharLiteral? false tail).map fun rest => upTo (.token .characterLiteral) rest cs frames
  | none, c :: tail =>
    if isGap c then some (upTo .gap (tail.dropWhile isGap) cs frames)
    else if isIdentifierStart c then
      some (upTo (.token .identifier) (tail.dropWhile isIdentifierPart) cs frames)
    else
      match Number.scan? cs with
      | some (kind, rest) => some (upTo (.token kind) rest cs frames)
      | none =>
        (mark? cs).map fun text => mark (String.ofList text) cs (framesAfter c frames)
  | none, [] => none

def lexStep? (frames : List Frame) (cs : List Char) : Option LexStep :=
  match frames with
  | [] => stepInCode [] cs
  | .embedded depth :: frames => stepInCode (.embedded depth :: frames) cs
  | frame :: frames => stepInString frame frames cs

/-- A comment and where it stands. -/
structure Comment where
  kind : Kind
  text : String
  span : Span

structure Lexed where
  tokens : List Token
  comments : List Comment

namespace Lexed

def empty : Lexed := ⟨[], []⟩

/-- Puts what was found in front. -/
def add (lexed : Lexed) (lexeme : Lexeme) (text : String) (span : Span) : Lexed :=
  match lexeme with
  | .token kind => { lexed with tokens := ⟨kind, text, span⟩ :: lexed.tokens }
  | .comment kind => { lexed with comments := ⟨kind, text, span⟩ :: lexed.comments }
  | .gap | .silent => lexed

end Lexed

/-- Every step takes at least one character, so that as many steps as there are characters are
enough. -/
def lexFrom : Nat → List Frame → Nat → List Char → Option Lexed
  | _, _, _, [] => some .empty
  | 0, _, _, _ :: _ => none
  | n + 1, frames, offset, c :: cs =>
    match lexStep? frames (c :: cs) with
    | none => none
    | some step =>
      let stop := offset + Text.byteLength step.text
      (lexFrom n step.frames stop step.rest).map
        (·.add step.lexeme (String.ofList step.text) ⟨offset, stop⟩)

/-- The mark of the byte order, which may stand at the very start of a text. -/
def byteOrderMark : Char := '\ufeff'

/-- The tokens and comments of a text, if it has no character outside the lexical grammar. -/
def lex? (cs : List Char) : Option Lexed :=
  match cs with
  | c :: rest =>
    if c = byteOrderMark then lexFrom rest.length [] c.utf8Size rest
    else lexFrom cs.length [] 0 cs
  | [] => some .empty

end ClassSplit.Java
