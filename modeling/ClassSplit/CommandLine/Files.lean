import ClassSplit.NameMap
import ClassSplit.Path

/-!
Access to files. The program uses files only through `FileAccess`, so that it runs on the files of
the machine as well as on a map from paths to texts.
-/

namespace ClassSplit.CommandLine

/-- How files are read and written. A failure is the text that says why. -/
structure FileAccess (m : Type → Type) where
  read : String → m (Except String String)
  isPresent : String → m Bool
  write : String → String → m (Except String Unit)
  remove : String → m Unit

/-- Texts by their keys. The key of a file consists of the names of the directories on the way to it
and of its own name, with slashes between them. A directory is there if a file is in it or below. -/
abbrev FileMap := NameMap String

namespace FileMap

/-- The names of the directories that one is in, the innermost first. -/
abbrev Directory := List (List Char)

def key (directory : Directory) (name : List Char) : String :=
  String.ofList (List.intercalate ['/'] (name :: directory).reverse)

/-- Whether a directory is there. The one that every path starts from always is. -/
def hasDirectory (files : FileMap) : Directory → Bool
  | [] => true
  | name :: above =>
    files.entries.any fun entry => ((key above name).toList ++ ['/']).isPrefixOf entry.1.toList

def missing : String := "No such file or directory (os error 2)"

def notADirectory : String := "Not a directory (os error 20)"

def isADirectory : String := "Is a directory (os error 21)"

def nulByte : String := "file name contained an unexpected NUL byte"

/-- Follows a segment of a path that has to lead to a directory. What is above the first directory
is not known. -/
def enter (files : FileMap) (directory : Directory) (segment : List Char) :
    Except String Directory :=
  if Path.isVacuous segment then .ok directory
  else if segment = ['.', '.'] then
    match directory with
    | [] => .error missing
    | _ :: above => .ok above
  else if hasDirectory files (segment :: directory) then .ok (segment :: directory)
  else if (files.get? (key directory segment)).isSome then .error notADirectory
  else .error missing

def walk (files : FileMap) (segments : List (List Char)) : Except String Directory :=
  segments.foldlM (enter files) []

/-- Where a path leads. -/
inductive Place where
  | directory
  /-- A name in a directory; nothing has to have that name. -/
  | entry (directory : Directory) (name : List Char)

/-- The segments of a path that starts from where one is. -/
def segments (path : String) : Except String (List (List Char)) :=
  if path.toList.contains '\x00' then .error nulByte
  else if path.isEmpty || path.toList.head? == some '/' then .error missing
  else .ok (Path.segments path.toList)

/-- Whether a segment is the name of something, not a step back or none at all. -/
def isName (segment : List Char) : Bool :=
  !Path.isVacuous segment && segment != ['.', '.']

/-- Follows the segments of a path. If the last one is a name, it need not be there. -/
def place (files : FileMap) (path : String) : Except String Place := do
  let segments ← segments path
  let last := segments.getLastD []
  if isName last then
    return .entry (← walk files segments.dropLast) last
  else
    let _ ← walk files segments
    return .directory

/-- The key of the file that a path leads to; the file need not be there. -/
def target (files : FileMap) (path : String) : Except String String := do
  match ← place files path with
  | .directory => throw isADirectory
  | .entry directory name =>
    if hasDirectory files (name :: directory) then throw isADirectory
    else return key directory name

def read (files : FileMap) (path : String) : Except String String := do
  match files.get? (← target files path) with
  | some text => return text
  | none => throw missing

/-- Whether a file or a directory is at a path. -/
def isPresent (files : FileMap) (path : String) : Bool :=
  match place files path with
  | .ok .directory => true
  | .ok (.entry directory name) =>
    hasDirectory files (name :: directory) || (files.get? (key directory name)).isSome
  | .error _ => false

def write (files : FileMap) (path text : String) : Except String FileMap := do
  return NameMap.put files (← target files path) text

def remove (files : FileMap) (path : String) : FileMap :=
  match target files path with
  | .ok key => NameMap.erase files key
  | .error _ => files

/-- The map as the files of the program. What can be reached can be written. -/
def access : FileAccess (StateM FileMap) where
  read path := return read (← get) path
  isPresent path := return isPresent (← get) path
  write path text := do
    match write (← get) path text with
    | .ok files =>
      set files
      return .ok ()
    | .error cause => return .error cause
  remove path := modify (remove · path)

/-- The names on a path after its steps back are carried out, the last one first. -/
def names? (directory : Directory) : List (List Char) → Option Directory
  | [] => some directory
  | segment :: rest =>
    if Path.isVacuous segment then names? directory rest
    else if segment = ['.', '.'] then
      match directory with
      | [] => none
      | _ :: above => names? above rest
    else names? (segment :: directory) rest

/-- The map with a file at a path, where the directories on the way are made if need be. -/
def put (files : FileMap) (path text : String) : FileMap :=
  match names? [] (Path.segments path.toList) with
  | some (name :: directory) => NameMap.put files (key directory name) text
  | _ => files

end FileMap

end ClassSplit.CommandLine
