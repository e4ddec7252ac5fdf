import ClassSplit.Text.Letter

/-!
The identifiers of a piece of source text, found without a syntax tree.
-/

namespace ClassSplit.Text

/-- What follows a string or character literal whose opening quote has just been read. A backslash
takes the next character with it; an unclosed literal extends to the end. -/
def afterLiteral (quote : Char) : List Char → List Char
  | [] => []
  | '\\' :: _ :: cs => afterLiteral quote cs
  | c :: cs => if c = quote then cs else afterLiteral quote cs

theorem length_afterLiteral_le (quote : Char) (cs : List Char) :
    (afterLiteral quote cs).length ≤ cs.length := by
  fun_induction afterLiteral quote cs <;> simp_all <;> omega

/-- The identifiers of a text, except those that a dot selects from something: `a.b` has only
`a`. Literals have none, and `before` is the last character that was not blank. -/
def identifiersAfter (before : Option Char) : List Char → List (List Char)
  | [] => []
  | c :: cs =>
    if c = '"' ∨ c = '\'' then identifiersAfter (some c) (afterLiteral c cs)
    else if isWordChar c then
      let word := c :: cs.takeWhile isWordChar
      let found := identifiersAfter word.getLast? (cs.dropWhile isWordChar)
      if c.isDigit || before == some '.' then found else word :: found
    else identifiersAfter (if isBlank c then before else some c) cs
termination_by cs => cs.length
decreasing_by
  · have := length_afterLiteral_le c cs
    simp only [List.length_cons]; omega
  · have := (List.dropWhile_suffix isWordChar (l := cs)).length_le
    simp only [List.length_cons]; omega
  · simp

def identifiers (cs : List Char) : List (List Char) := identifiersAfter none cs

end ClassSplit.Text
