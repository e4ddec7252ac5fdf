import ClassSplit.Java.Grammar.Expressions

/-!
Statements. A statement that begins with a type and a name declares variables, even where it could
be read as an expression.
-/

namespace ClassSplit.Java.Grammar

open Recognizer

variable (g : Goals)

/-- The words with which a statement begins that is not an expression. -/
def statementKeywords : List String :=
  ["assert", "do", "while", "break", "continue", "return", "throw", "try", "if", "for", "import",
    "package", "class", "interface", "enum", "case"] ++ modifierKeywords.erase "sealed"

def block : Recognizer := node .block (mark "\x7b" ++ many (g .statement) ++ mark "\x7d")

def throwStatement : Recognizer :=
  node .throwStatement (keyword "throw" ++ g (.expression true) ++ mark ";")

/-- Whether the word `yield` in front of these tokens begins a statement: it does where an
expression can follow. -/
def yieldContinues (ts : List Token) : Bool :=
  operandBegins ts
    || ts.head?.any fun t => ["+", "-", "++", "--"].any fun m => t.kind = .token m

def yieldHead : Recognizer where
  run ts :=
    match (keyword "yield").run ts with
    | some (ns, rest) => if yieldContinues rest then some (ns, rest) else none
    | none => none

def yieldStatement : Recognizer :=
  node .yieldStatement (yieldHead ++ g (.expression true) ++ mark ";")

def expressionStatement : Recognizer :=
  notAhead yieldHead ++ notAhead (oneOfKeywords statementKeywords)
    ++ node .expressionStatement (g (.expression true) ++ mark ";")

def localVariables : Recognizer :=
  modified g fun mods =>
    notAhead (oneOfKeywords (reservedNames ++ statementKeywords))
      ++ node .localVariableDeclaration
        (given mods ++ role .type (g .type) ++ declarators g ["instanceof"] ++ mark ";")

def labeledStatement : Recognizer :=
  node .labeledStatement
    (identifier (statementKeywords ++ expressionKeywords ++ reservedNames) ++ mark ":"
      ++ g .statement)

def assertStatement : Recognizer :=
  node .assertStatement
    (keyword "assert" ++ g (.expression true) ++ optional (mark ":" ++ g (.expression true))
      ++ mark ";")

def doStatement : Recognizer :=
  node .doStatement
    (keyword "do" ++ role .body (g .statement) ++ keyword "while"
      ++ role .condition (parenthesized g .parenthesizedExpression) ++ mark ";")

def jump (kind : Kind) (word : String) : Recognizer :=
  node kind (keyword word ++ optional (identifier []) ++ mark ";")

def returnStatement : Recognizer :=
  node .returnStatement (keyword "return" ++ optional (g (.expression true)) ++ mark ";")

def synchronizedStatement : Recognizer :=
  node .synchronizedStatement
    (keyword "synchronized" ++ parenthesized g .parenthesizedExpression ++ role .body (g .block))

def catchClause : Recognizer :=
  node .catchClause
    (keyword "catch" ++ mark "("
      ++ node .catchFormalParameter
        (optional (modifiers g) ++ node .catchType (separated1 (g .type) (mark "|"))
          ++ declaratorName g [])
      ++ mark ")" ++ role .body (g .block))

def finallyClause : Recognizer := node .finallyClause (keyword "finally" ++ g .block)

/-- What is opened for the time of a block: a new variable, or a variable or field by name. -/
def resource : Recognizer :=
  node .resource
      (optional (modifiers g) ++ role .type (g .type) ++ declaratorName g [] ++ mark "="
        ++ role .value (g (.expression true)))
    <|> node .resource
      (suchThat (primary g) fun ns => isKind ns .identifier || isKind ns .fieldAccess)

def resources : Recognizer :=
  node .resourceSpecification
    (mark "(" ++ separated1 (resource g) (mark ";") ++ optional (mark ";") ++ mark ")")

def tryStatement : Recognizer :=
  node .tryStatement
      (keyword "try" ++ role .body (g .block)
        ++ (many1 (catchClause g) ++ optional (finallyClause g) <|> finallyClause g))
    <|> node .tryWithResourcesStatement
      (keyword "try" ++ role .resources (resources g) ++ role .body (g .block)
        ++ many (catchClause g) ++ optional (finallyClause g))

def ifStatement : Recognizer :=
  node .ifStatement
    (keyword "if" ++ role .condition (parenthesized g .condition)
      ++ role .consequence (g .statement)
      ++ optional (keyword "else" ++ role .alternative (g .statement)))

def whileStatement : Recognizer :=
  node .whileStatement
    (keyword "while" ++ role .condition (parenthesized g .condition) ++ role .body (g .statement))

def forStatement : Recognizer :=
  node .enhancedForStatement
      (keyword "for" ++ mark "(" ++ optional (modifiers g) ++ role .type (g .type)
        ++ declaratorName g [] ++ mark ":" ++ role .value (g (.expression true)) ++ mark ")"
        ++ role .body (g .statement))
    <|> node .forStatement
      (keyword "for" ++ mark "("
        ++ (role .init (localVariables g)
          <|> commaSeparated (role .init (g (.expression true))) ++ mark ";")
        ++ role .condition (optional (g (.expression true))) ++ mark ";"
        ++ commaSeparated (role .update (g (.expression true))) ++ mark ")"
        ++ role .body (g .statement))

/-- What ends the expressions of a case. -/
def labelEnds : Recognizer := ahead (mark ":" <|> mark "->" <|> keyword "when")

def switchLabel : Recognizer :=
  node .switchLabel
      (keyword "case"
        ++ (node .pattern (node .typePattern (g .type ++ identifier ["when"]))
          <|> commaSeparated1 (g (.expression false)) ++ labelEnds
          <|> node .pattern (g .recordPattern))
        ++ optional (node .guard (keyword "when" ++ g (.expression false))))
    <|> node .switchLabel (keyword "default")

def switchRule : Recognizer :=
  node .switchRule
    (switchLabel g ++ mark "->"
      ++ (g .block <|> throwStatement g <|> expressionStatement g))

def switchGroup : Recognizer :=
  node .switchBlockStatementGroup
    (many1 (switchLabel g ++ mark ":") ++ many (g .statement))

/-- All cases of a switch are of one form, with arrows or with colons. -/
def switchBlock : Recognizer :=
  node .switchBlock
    (mark "\x7b" ++ (many1 (switchRule g) ++ mark "\x7d"
      <|> many (switchGroup g) ++ mark "\x7d"))

def statement (declaration : Recognizer) : Recognizer :=
  g .block
    <|> mark ";"
    <|> labeledStatement g
    <|> ifStatement g
    <|> returnStatement g
    <|> forStatement g
    <|> whileStatement g
    <|> doStatement g
    <|> tryStatement g
    <|> throwStatement g
    <|> jump .breakStatement "break"
    <|> jump .continueStatement "continue"
    <|> assertStatement g
    <|> yieldStatement g
    <|> synchronizedStatement g
    <|> switchExpression g
    <|> declaration
    <|> localVariables g
    <|> expressionStatement g

end ClassSplit.Java.Grammar
