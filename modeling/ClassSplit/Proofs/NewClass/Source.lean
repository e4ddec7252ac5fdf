import ClassSplit.Extraction.NewSource
import ClassSplit.Proofs.Java.Name
import ClassSplit.Proofs.NewClass.Field

/-!
The words of the source of a new class. Each part of the class stands between blanks, so that the
source has the words of its parts, and a declaration of a field has those of the field.
-/

namespace ClassSplit

open Text

namespace MovedField

variable {indent : String} {f : MovedField}

-- What a declaration says behind its modifiers and the type.
def declarator (f : Field) : String :=
  f.name ++ (f.initializer.map (" = " ++ ·)).getD "" ++ ";"

end MovedField

namespace NewClass

variable {n : NewClass}

-- The words of all that a new class is made of.
def words (n : NewClass) : List (List Char) :=
  Text.words (preamble n.origin).toList
    ++ (if n.origin.modifiers.visibility = .everyone then ["public".toList] else [])
    ++ ["class".toList, n.name.toList, ['\x7b']]
    ++ n.fields.flatMap (Text.words ·.declaration.toList)
    ++ n.fields.flatMap (·.members.flatMap (Text.words ·.toList))
    ++ n.methods.flatMap (Text.words ·.source.toList)
    ++ [['\x7d']]

end NewClass

end ClassSplit
