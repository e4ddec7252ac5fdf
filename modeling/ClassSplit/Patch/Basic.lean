import ClassSplit.Text.Span

/-!
Patches of a text. A replacement puts a sequence of pieces in the place of a span, and a piece may
show a part of that span itself, with the replacements inside that part carried out. A patch is
normal when it is sorted from the outside in and has at most one insertion at each offset.
-/

namespace ClassSplit

inductive Piece where
  /-- New text. -/
  | text (text : String)
  /-- The text of a part of the replaced span, with the replacements in that part carried out. -/
  | source (span : Span)
  deriving DecidableEq

structure Replacement where
  span : Span
  pieces : List Piece
  deriving DecidableEq

namespace Replacement

def ofText (span : Span) (text : String) : Replacement := ⟨span, [.text text]⟩

def insertion (offset : Nat) (text : String) : Replacement := ofText (.point offset) text

def deletion (span : Span) : Replacement := ⟨span, []⟩

def isInsertion (r : Replacement) : Bool := r.span.isEmpty

/-- Whether `s` belongs to the text that `r` replaces. An insertion on a boundary of `r` stands
beside it. -/
def encloses (r s : Replacement) : Bool :=
  !r.isInsertion && r.span != s.span && r.span.covers s.span
    && !(s.isInsertion && (s.span.start == r.span.start || s.span.start == r.span.stop))

/-- The order of a normal patch: by start, insertions first, then longer spans before shorter. -/
def precedes (r s : Replacement) : Bool :=
  r.span.start < s.span.start ||
    r.span.start == s.span.start &&
      (r.isInsertion && !s.isInsertion ||
        r.isInsertion == s.isInsertion && s.span.stop ≤ r.span.stop)

end Replacement

/-- Replacements of one text in the order in which they were added. -/
structure Patch where
  replacements : List Replacement

namespace Patch

def empty : Patch := ⟨[]⟩

def push (p : Patch) (r : Replacement) : Patch := ⟨p.replacements ++ [r]⟩

def length (p : Patch) : Nat := p.replacements.length

def isEmpty (p : Patch) : Bool := p.replacements.isEmpty

/-- Drops a replacement that equals the one before it. -/
def dropRepeats : List Replacement → List Replacement
  | [] => []
  | [r] => [r]
  | r :: s :: rest => if r = s then dropRepeats (s :: rest) else r :: dropRepeats (s :: rest)

/-- Joins a replacement to those that follow it: two insertions at one offset become one. -/
def joinInsertion (r : Replacement) : List Replacement → List Replacement
  | [] => [r]
  | s :: rest =>
    if r.isInsertion ∧ r.span = s.span then ⟨r.span, r.pieces ++ s.pieces⟩ :: rest
    else r :: s :: rest

def joinInsertions (rs : List Replacement) : List Replacement := rs.foldr joinInsertion []

def normalize (p : Patch) : Patch :=
  ⟨joinInsertions (dropRepeats (p.replacements.mergeSort Replacement.precedes))⟩

@[simp] theorem length_push (p : Patch) (r : Replacement) :
    (p.push r).length = p.length + 1 := by
  simp [push, length]

end Patch

end ClassSplit
