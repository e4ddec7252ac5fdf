import ClassSplit.Java.Lexeme
import ClassSplit.Java.Tree

/-!
Recognizers of token sequences. A recognizer either fails or takes some tokens and gives the nodes
that they form; `p ++ q` is `p` followed by `q`, and `p <|> q` is `q` where `p` fails.

The grammar is recursive through its `Goal`s: a rule of the grammar is given the recognizers of
all goals and combines them.
-/

namespace ClassSplit.Java.Grammar

structure Recognizer where
  run : List Token → Option (List Node × List Token)

/-- The constructs through which the grammar is recursive. Where lambdas are not admitted, an arrow
after the expression belongs to the construct around it. -/
inductive Goal where
  | type
  | annotationForm
  | elementValue
  | expression (lambdas : Bool)
  | operand (lambdas : Bool)
  | signed (lambdas : Bool)
  | initializer
  | statement
  | block
  | classBody
  | interfaceBody
  | annotationBody
  | enumBody
  | switchBlock
  | recordPattern

/-- The recognizers of all goals. -/
abbrev Goals := Goal → Recognizer

namespace Recognizer

/-- Takes nothing. -/
def done : Recognizer := ⟨fun ts => some ([], ts)⟩

def fail : Recognizer := ⟨fun _ => none⟩

def andThen (p q : Recognizer) : Recognizer where
  run ts :=
    match p.run ts with
    | none => none
    | some (ns, rest) =>
      match q.run rest with
      | none => none
      | some (ms, rest') => some (ns ++ ms, rest')

instance : Append Recognizer := ⟨andThen⟩

def either (p : Recognizer) (q : Unit → Recognizer) : Recognizer where
  run ts :=
    match p.run ts with
    | some found => some found
    | none => (q ()).run ts

instance : OrElse Recognizer := ⟨either⟩

def optional (p : Recognizer) : Recognizer := p <|> done

/-- As often as possible. A repetition that takes nothing ends it. -/
def many (p : Recognizer) : Recognizer where
  run ts := go ts.length ts
where
  go : Nat → List Token → Option (List Node × List Token)
    | 0, ts => some ([], ts)
    | n + 1, ts =>
      match p.run ts with
      | none => some ([], ts)
      | some (ns, rest) =>
        if rest.length < ts.length then
          (go n rest).map fun (ms, rest') => (ns ++ ms, rest')
        else some ([], ts)

def many1 (p : Recognizer) : Recognizer := p ++ many p

/-- `p` extended to the right as long as a step succeeds; a step is given what came before. -/
def extend (p : Recognizer) (step : List Node → Recognizer) : Recognizer where
  run ts :=
    match p.run ts with
    | none => none
    | some (ns, rest) => go rest.length ns rest
where
  go : Nat → List Node → List Token → Option (List Node × List Token)
    | 0, ns, ts => some (ns, ts)
    | n + 1, ns, ts =>
      match (step ns).run ts with
      | none => some (ns, ts)
      | some (ms, rest) => if rest.length < ts.length then go n ms rest else some (ns, ts)

/-- Succeeds with nothing taken where `p` would succeed. -/
def ahead (p : Recognizer) : Recognizer where
  run ts := (p.run ts).map fun _ => ([], ts)

/-- Succeeds with nothing taken where `p` would fail. -/
def notAhead (p : Recognizer) : Recognizer where
  run ts :=
    match p.run ts with
    | none => some ([], ts)
    | some _ => none

/-- A construct over the nodes that `p` gives. -/
def node (kind : Kind) (p : Recognizer) : Recognizer where
  run ts :=
    match p.run ts with
    | none => none
    | some (ns, rest) =>
      match ns.head?, ns.getLast? with
      | some first, some last =>
        some ([.branch kind none ⟨first.span.start, last.span.stop⟩ ns], rest)
      | _, _ => none

/-- The same nodes, each with a part to play. -/
def role (r : Role) (p : Recognizer) : Recognizer where
  run ts := (p.run ts).map fun (ns, rest) => (ns.map (·.withRole r), rest)

/-- Goes on with a recognizer that is given the nodes so far. -/
def bind (p : Recognizer) (f : List Node → Recognizer) : Recognizer where
  run ts :=
    match p.run ts with
    | none => none
    | some (ns, rest) => (f ns).run rest

/-- Fails if the nodes do not pass a test. -/
def suchThat (p : Recognizer) (test : List Node → Bool) : Recognizer :=
  p.bind fun ns => if test ns then ⟨fun ts => some (ns, ts)⟩ else fail

/-- Puts nodes that have been recognized before in front. -/
def given (ns : List Node) : Recognizer := ⟨fun ts => some (ns, ts)⟩

/-- One token with a property, as a leaf of a kind. -/
def leaf (p : Token → Bool) (kind : Token → Kind) : Recognizer where
  run
    | [] => none
    | t :: ts => if p t then some ([.leaf (kind t) none t.span t.text], ts) else none

/-- A mark such as `;` or `->`. -/
def mark (text : String) : Recognizer := leaf (·.kind = .token text) (·.kind)

/-- A word that is a keyword in this place. -/
def keyword (text : String) : Recognizer :=
  leaf (fun t => t.kind = .identifier && t.text == text) fun _ => .token text

/-- A keyword that is a construct by itself. -/
def keywordAs (kind : Kind) (text : String) : Recognizer :=
  leaf (fun t => t.kind = .identifier && t.text == text) fun _ => kind

def oneOfKeywords (texts : List String) : Recognizer :=
  leaf (fun t => t.kind = .identifier && texts.contains t.text) fun t => .token t.text

/-- A word that is none of the keywords of this place. -/
def wordAs (kind : Kind) (keywords : List String) : Recognizer :=
  leaf (fun t => t.kind = .identifier && !keywords.contains t.text) fun _ => kind

def identifier (keywords : List String) : Recognizer := wordAs .identifier keywords

/-- A token of a kind. -/
def ofKind (kind : Kind) : Recognizer := leaf (·.kind = kind) (·.kind)

def separated1 (p : Recognizer) (separator : Recognizer) : Recognizer :=
  p ++ many (separator ++ p)

def commaSeparated1 (p : Recognizer) : Recognizer := separated1 p (mark ",")

def commaSeparated (p : Recognizer) : Recognizer := optional (commaSeparated1 p)

/-- The longest of some operators that stands here. An operator with a greater-than sign in front
is put together from adjacent tokens. -/
def operator (texts : List String) : Recognizer where
  run ts := texts.findSome? fun text => (glued text.toList ts).map fun (span, rest) =>
    ([.leaf (.token text) none span text], rest)
where
  /-- The adjacent tokens that spell a text. -/
  glued (text : List Char) : List Token → Option (Span × List Token)
    | [] => none
    | t :: ts =>
      match t.kind with
      | .token mark =>
        if mark.toList = text then some (t.span, ts)
        else if mark = ">" ∧ text.head? = some '>' then
          match glued text.tail ts with
          | some (span, rest) =>
            if span.start = t.span.stop then some (⟨t.span.start, span.stop⟩, rest) else none
          | none => none
        else none
      | _ => none

end Recognizer

end ClassSplit.Java.Grammar
