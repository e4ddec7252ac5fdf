import ClassSplit.Java.Arena
import ClassSplit.Model.OfTree
import ClassSplit.Patch.Splice

/-!
What can go wrong while members are moved. Only an unsupported construct is a property of the
source; everything else means that the members to move and the class do not fit together.
-/

namespace ClassSplit

/-- One of the two texts that an extraction produces. -/
inductive GeneratedText where
  | newClass
  | oldClass
  deriving DecidableEq

def GeneratedText.label : GeneratedText → String
  | .newClass => "new class"
  | .oldClass => "original class"

inductive ExtractionError where
  | memberNotFound (className member : String)
  | constructor (signature : String)
  | missingBody (signature : String)
  | unsupported (line : Nat) (reason : String)
  | splice (error : SpliceError)
  | arena (error : Java.ArenaError)
  | malformedResult (which : GeneratedText)
  deriving DecidableEq

namespace ExtractionError

def message : ExtractionError → String
  | memberNotFound className member =>
    "member `" ++ member ++ "` not found in class `" ++ className ++ "`"
  | constructor signature =>
    "`" ++ signature ++ "` is a constructor; constructors cannot be extracted"
  | missingBody signature => "method `" ++ signature ++ "` has no body to move"
  | unsupported line reason =>
    "unsupported construct at line " ++ toString line ++ ": " ++ reason
  | splice error => error.message
  | arena error => error.message
  | malformedResult which =>
    "generated " ++ which.label ++ " does not parse: " ++ JavaSource.ParseError.message .malformed

/-- Whether the source is to blame, and not the choice of members. -/
def isUnsupported : ExtractionError → Bool
  | unsupported .. => true
  | _ => false

end ExtractionError

end ClassSplit
