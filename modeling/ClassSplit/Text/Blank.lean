/-!
Blank characters: those with the Unicode property White_Space. Trimming and the test for a blank
text are defined from this class everywhere in the library.
-/

namespace ClassSplit.Text

/-- Whether `n` lies in one of the closed intervals, which are in ascending order. -/
def inIntervals (n : Nat) (intervals : List (Nat × Nat)) : Bool :=
  match intervals.dropWhile (·.2 < n) with
  | [] => false
  | interval :: _ => interval.1 ≤ n

def blankIntervals : List (Nat × Nat) :=
  [(9, 13), (32, 32), (133, 133), (160, 160), (5760, 5760), (8192, 8202), (8232, 8233),
  (8239, 8239), (8287, 8287), (12288, 12288)]

def isBlank (c : Char) : Bool := inIntervals c.toNat blankIntervals

/-- Whether nothing but blank characters is left. -/
def allBlank (cs : List Char) : Bool := cs.all isBlank

def trimStart (cs : List Char) : List Char := cs.dropWhile isBlank

def trimEnd (cs : List Char) : List Char := (cs.reverse.dropWhile isBlank).reverse

def trim (cs : List Char) : List Char := trimEnd (trimStart cs)

/-- The pieces of a text between single blanks; some of them may be empty. -/
def piecesBetweenBlanks : List Char → List (List Char)
  | [] => [[]]
  | c :: cs =>
    match piecesBetweenBlanks cs with
    | [] => [[c]]
    | piece :: rest => if isBlank c then [] :: piece :: rest else (c :: piece) :: rest

/-- The text with one space for every run of blanks, and none at the ends. -/
def singleSpaced (cs : List Char) : List Char :=
  List.intercalate [' '] ((piecesBetweenBlanks cs).filter (· != []))

theorem trimStart_of_head {c : Char} {cs : List Char} (h : isBlank c = false) :
    trimStart (c :: cs) = c :: cs := by
  simp [trimStart, h]

theorem allBlank_append (xs ys : List Char) :
    allBlank (xs ++ ys) = (allBlank xs && allBlank ys) := by
  simp [allBlank]

end ClassSplit.Text
