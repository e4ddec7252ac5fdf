import ClassSplit.Java.Kind
import ClassSplit.Text.Letter
import ClassSplit.Text.Offset

/-!
The lexical grammar of Java: which prefix of a text is a literal, a mark or a word. Number
literals are given by patterns, and of several that match the longest one is taken.
-/

namespace ClassSplit.Java

/-- A token of the source. Keywords are not told from identifiers here: which words are keywords
depends on the place where they stand. -/
structure Token where
  kind : Kind
  text : String
  span : Span

/-- A pattern gives, for a text, what can be left after a prefix that has the pattern. -/
abbrev Pattern := List Char → List (List Char)

namespace Pattern

def one (p : Char → Bool) : Pattern
  | [] => []
  | c :: cs => if p c then [cs] else []

def char (c : Char) : Pattern := one (· == c)

def anyOf (s : String) : Pattern := one (s.toList.contains ·)

def seq (p q : Pattern) : Pattern := fun cs => (p cs).flatMap q

def alt (p q : Pattern) : Pattern := fun cs => p cs ++ q cs

def opt (p : Pattern) : Pattern := fun cs => p cs ++ [cs]

/-- One or more characters of a class. -/
def some1 (p : Char → Bool) : Pattern
  | [] => []
  | c :: cs => if p c then some1 p cs ++ [cs] else []

/-- One or more groups of digits with a separator between any two. -/
def groups (digit : Char → Bool) (separator : Pattern) : Pattern := fun cs => go cs.length cs
where
  go : Nat → Pattern
    | 0, _ => []
    | n + 1, cs =>
      let first := some1 digit cs
      first.flatMap (fun rest => (separator rest).flatMap (go n)) ++ first

/-- What is left after the longest prefix that has the pattern. -/
def longest? (p : Pattern) (cs : List Char) : Option (List Char) :=
  (p cs).foldl (fun best rest =>
    match best with
    | none => some rest
    | some b => if rest.length < b.length then some rest else some b) none

end Pattern

namespace Number

open Pattern

def isHex (c : Char) : Bool := c.isDigit || ('a' ≤ c && c ≤ 'f') || ('A' ≤ c && c ≤ 'F')

def isOctal (c : Char) : Bool := '0' ≤ c && c ≤ '7'

def isBinary (c : Char) : Bool := c == '0' || c == '1'

def underscore : Pattern := char '_'

/-- A decimal number that has no superfluous zero in front. -/
def digits : Pattern :=
  alt (char '0')
    (seq (one fun c => c.isDigit && c != '0')
      (opt (seq (opt underscore) (groups Char.isDigit (some1 (· == '_'))))))

def decimalDigits : Pattern := groups Char.isDigit underscore

def hexDigits : Pattern := groups isHex underscore

def long : Pattern := opt (anyOf "lL")

def sign : Pattern := opt (anyOf "-+")

def floatMark : Pattern := anyOf "fFdD"

def exponent : Pattern := seq (anyOf "eE") (seq sign decimalDigits)

def hexMark : Pattern := seq (char '0') (anyOf "xX")

def decimalInteger : Pattern := seq digits long

def hexInteger : Pattern := seq hexMark (seq hexDigits long)

def octalInteger : Pattern :=
  seq (char '0') (seq (opt (anyOf "oO")) (seq (groups isOctal underscore) long))

def binaryInteger : Pattern :=
  seq (char '0') (seq (anyOf "bB") (seq (groups isBinary underscore) long))

def decimalFloat : Pattern :=
  alt (seq decimalDigits (seq (char '.') (seq (opt decimalDigits)
      (seq (opt exponent) (opt floatMark)))))
    (alt (seq (char '.') (seq decimalDigits (seq (opt exponent) (opt floatMark))))
      (alt (seq digits (seq (anyOf "eEpP") (seq sign (seq decimalDigits (opt floatMark)))))
        (seq digits (seq (opt exponent) floatMark))))

def hexFloat : Pattern :=
  seq hexMark
    (seq (alt (seq hexDigits (opt (char '.'))) (seq (opt hexDigits) (seq (char '.') hexDigits)))
      (opt (seq (anyOf "eEpP") (seq sign (seq digits (opt floatMark))))))

/-- The forms of number literals. Of two that match the same text the earlier one counts. -/
def forms : List (Kind × Pattern) :=
  [(.decimalIntegerLiteral, decimalInteger), (.hexIntegerLiteral, hexInteger),
    (.octalIntegerLiteral, octalInteger), (.binaryIntegerLiteral, binaryInteger),
    (.decimalFloatingPointLiteral, decimalFloat), (.hexFloatingPointLiteral, hexFloat)]

/-- The longest number literal at the start of a text, and what is left. -/
def scan? (cs : List Char) : Option (Kind × List Char) :=
  forms.foldl (fun best (kind, pattern) =>
    match best, pattern.longest? cs with
    | best, none => best
    | none, some rest => some (kind, rest)
    | some (k, r), some rest => if rest.length < r.length then some (kind, rest) else some (k, r))
    none

end Number

/-- The marks of more than one character, longer ones first. A greater-than sign always stands for
itself, because two of them may close two lists of type arguments. -/
def longMarks : List (List Char) :=
  ["...", "<<=", "->", "::", "++", "--", "+=", "-=", "*=", "/=", "&=", "|=", "^=", "%=", "<<",
    "<=", "==", "!=", "&&", "||"].map String.toList

def shortMarks : List Char := "()\x7b\x7d[];,.@=<>!~?:+-*/&|^%".toList

/-- The mark at the start of a text. -/
def mark? (cs : List Char) : Option (List Char) :=
  match longMarks.find? (·.isPrefixOf cs) with
  | some mark => some mark
  | none =>
    match cs with
    | c :: _ => if shortMarks.contains c then some [c] else none
    | [] => none

def isIdentifierStart (c : Char) : Bool := Text.isLetter c || c == '_' || c == '$'

def isIdentifierPart (c : Char) : Bool :=
  isIdentifierStart c || Text.isDecimalDigit c || c == '¢'

/-- The blanks that may stand between tokens. -/
def isGap (c : Char) : Bool := c == ' ' || c == '\t' || c == '\r' || c == '\n'

end ClassSplit.Java
