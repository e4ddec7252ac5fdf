import ClassSplit.Text.Letter

/-!
Names that can be declared in Java source.
-/

namespace ClassSplit.Java

/-- The words that cannot be the name of a class or of a field, some of them only for a class. -/
def reservedWords : List String :=
  ["abstract", "assert", "boolean", "break", "byte", "case", "catch", "char", "class", "const",
    "continue", "default", "do", "double", "else", "enum", "extends", "final", "finally", "float",
    "for", "goto", "if", "implements", "import", "instanceof", "int", "interface", "long",
    "native", "new", "package", "private", "protected", "public", "return", "short", "static",
    "strictfp", "super", "switch", "synchronized", "this", "throw", "throws", "transient", "try",
    "void", "volatile", "while", "true", "false", "null", "var", "yield", "record", "_"]

/-- Whether a name is an identifier and not reserved. -/
def isDeclarable (name : String) : Bool :=
  match name.toList with
  | [] => false
  | c :: cs =>
    (Text.isAlphabetic c || c == '_' || c == '$') && cs.all Text.isWordChar
      && !reservedWords.contains name

end ClassSplit.Java
