import ClassSplit.Java.Grammar.Declarations
import ClassSplit.Java.Lexer

/-!
From a source text to its syntax tree. The tokens must form a program, and the comments are then
put into the tree, each into the innermost construct that has it between two of its tokens.
-/

namespace ClassSplit.Java

namespace Grammar

/-- The rule of a goal. -/
def rule (g : Goals) : Goal → Recognizer
  | .type => type g
  | .annotationForm => annotationForm g
  | .elementValue => elementValue g
  | .expression lambdas => expression g lambdas
  | .operand lambdas => operand g lambdas
  | .signed lambdas => signed g lambdas
  | .initializer => initializer g
  | .statement => statement g (declaration g)
  | .block => block g
  | .classBody => classBody g
  | .interfaceBody => interfaceBody g
  | .annotationBody => annotationBody g
  | .enumBody => enumBody g
  | .switchBlock => switchBlock g
  | .recordPattern => recordPattern g

/-- The recognizers of all goals, as far as goals are nested no deeper than `depth`. -/
def upToDepth : Nat → Goals
  | 0, _ => .fail
  | depth + 1, goal => ⟨fun ts => (rule (upToDepth depth) goal).run ts⟩

/-- Between two goals that are nested without a token in between there are at most so many. -/
def goalsPerToken : Nat := 8

def program (ts : List Token) : Option (List Node) :=
  let g := upToDepth (goalsPerToken * (ts.length + 2))
  match (Recognizer.many (topLevel g)).run ts with
  | some (ns, []) => some ns
  | _ => none

end Grammar

namespace Comment

def toNode (c : Comment) : Node := .leaf c.kind none c.span c.text

end Comment

mutual

/-- Puts the comments into a tree that lie within it; all comments given lie within its span. -/
def Node.withComments (comments : List Comment) : Node → Node
  | .leaf kind role span text => .leaf kind role span text
  | .branch kind role span children =>
    .branch kind role span (Node.mergeComments comments children)

/-- Puts comments between and into neighbouring nodes. -/
def Node.mergeComments (comments : List Comment) : List Node → List Node
  | [] => comments.map Comment.toNode
  | n :: ns =>
    (comments.filter (·.span.stop ≤ n.span.start)).map Comment.toNode
      ++ n.withComments (comments.filter (n.span.covers ·.span))
      :: Node.mergeComments (comments.filter (n.span.stop ≤ ·.span.start)) ns

end

inductive SyntaxError where
  | malformed
  deriving DecidableEq

/-- The tree of a whole text. Its root begins at the first token or comment and ends with the
text. -/
def tree? (text : List Char) : Option Node := do
  let lexed ← lex? text
  let statements ← Grammar.program lexed.tokens
  let children := Node.mergeComments lexed.comments statements
  let start := (children.head?.map (·.span.start)).getD 0
  some (.branch .program none ⟨start, Text.byteLength text⟩ children)

end ClassSplit.Java
