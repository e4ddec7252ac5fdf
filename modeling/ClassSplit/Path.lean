/-!
Paths of files as texts. The segments of a path stand between slashes; an empty one and a single
dot mean nothing, except at the front. `fileName?` and `parent?` split a path at its last segment
that means something.
-/

namespace ClassSplit.Path

/-- The pieces of a text between slashes. -/
def segments : List Char → List (List Char)
  | [] => [[]]
  | c :: cs =>
    match segments cs with
    | [] => [[c]]
    | s :: rest => if c = '/' then [] :: s :: rest else (c :: s) :: rest

/-- A slash at the front, or a dot there that is a segment of its own. -/
def front : List Char → List Char
  | '/' :: _ => ['/']
  | ['.'] => ['.']
  | '.' :: '/' :: _ => ['.']
  | _ => []

def isVacuous (segment : List Char) : Bool := segment == [] || segment == ['.']

/-- The segments behind the front, the last one first, from the last that means something on. -/
def significant (path : List Char) : List (List Char) :=
  (segments (path.drop (front path).length)).reverse.dropWhile isVacuous

/-- The name of the file or directory that a path leads to. -/
def fileName? (path : String) : Option String :=
  match significant path.toList with
  | [] => none
  | name :: _ => if name = ['.', '.'] then none else some (String.ofList name)

/-- The directory that holds what a path leads to. The empty path and the root have none. -/
def parent? (path : String) : Option String :=
  let start := front path.toList
  match significant path.toList with
  | [] => if start = ['.'] then some "" else none
  | _ :: before =>
    let kept := (before.dropWhile isVacuous).reverse
    some (String.ofList (start ++ List.intercalate ['/'] kept))

/-- What precedes and what follows the last dot of a file name, unless it begins the name. -/
def splitName (name : List Char) : List Char × Option (List Char) :=
  let back := name.reverse
  match back.dropWhile (· != '.') with
  | [] => (name, none)
  | [_] => (name, none)
  | _ :: stem => (stem.reverse, some (back.takeWhile (· != '.')).reverse)

/-- The file name without its extension. -/
def stem? (path : String) : Option String :=
  (fileName? path).map fun name => String.ofList (splitName name.toList).1

def extension? (path : String) : Option String :=
  (fileName? path).bind fun name => (splitName name.toList).2.map String.ofList

/-- The path of a file in a directory. -/
def join (directory name : String) : String :=
  if directory.isEmpty || directory.toList.getLast? == some '/' then directory ++ name
  else directory ++ "/" ++ name

theorem segments_ne_nil (cs : List Char) : segments cs ≠ [] := by
  cases cs with
  | nil => simp [segments]
  | cons c cs =>
    simp only [segments]
    split
    · simp
    · split <;> simp

-- Cutting a text at its slashes loses nothing.
theorem intercalate_segments (cs : List Char) : List.intercalate ['/'] (segments cs) = cs := by
  induction cs with
  | nil => rfl
  | cons c cs ih =>
    simp only [segments]
    split
    case h_1 h => exact absurd h (segments_ne_nil cs)
    case h_2 s rest h =>
      rw [h] at ih
      split
      case isTrue hc =>
        subst hc
        simp only [List.intercalate, List.intersperse_cons_cons, List.flatten_cons] at ih ⊢
        simp [ih]
      case isFalse =>
        cases rest with
        | nil => simpa [List.intercalate] using ih
        | cons t ts =>
          simp only [List.intercalate, List.intersperse_cons_cons, List.flatten_cons] at ih ⊢
          simpa using ih

end ClassSplit.Path
