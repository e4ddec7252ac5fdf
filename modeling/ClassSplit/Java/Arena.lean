import ClassSplit.Java.Source

/-!
Copies of syntax trees that can be edited. An arena holds nodes that are numbered in the order in
which they were made. A node names its parent and its children by their numbers, and it keeps its
own number when it is cut off. Each token of a copy has its text and the gap in front of it, so that
a tree can be written out again. Numbers are taken to be unbounded.
-/

namespace ClassSplit.Java

/-- A node of an arena. The gap is the text between a token and the token before it. -/
structure ArenaNode where
  kind : Kind
  role : Option Role
  origin : Span
  gap : String
  /-- What a token says; constructs have no text of their own. -/
  text : Option String
  parent : Option Nat
  children : List Nat
  deriving DecidableEq

def ArenaNode.addChild (n : ArenaNode) (child : Nat) : ArenaNode :=
  { n with children := n.children ++ [child] }

def ArenaNode.dropChild (n : ArenaNode) (child : Nat) : ArenaNode :=
  { n with children := n.children.filter (· ≠ child) }

inductive ArenaError where
  | unknownNode (id : Nat)
  | notAToken (id : Nat)
  deriving DecidableEq

def ArenaError.message : ArenaError → String
  | .unknownNode id => "unknown syntax node NodeId(" ++ toString id ++ ")"
  | .notAToken id => "syntax node NodeId(" ++ toString id ++ ") is not a token"

structure Arena where
  nodes : Array ArenaNode
  deriving DecidableEq

/-- A step on an arena. One that fails leaves an arena behind as well, which need not be the one it
was given. -/
abbrev Arena.Step := EStateM ArenaError Arena

namespace Arena

def empty : Arena := ⟨#[]⟩

def size (a : Arena) : Nat := a.nodes.size

def isEmpty (a : Arena) : Bool := a.nodes.isEmpty

def get (a : Arena) (id : Nat) : Except ArenaError ArenaNode :=
  match a.nodes[id]? with
  | some n => .ok n
  | none => .error (.unknownNode id)

/-- The node that the node with a number hangs off. -/
def parent? (a : Arena) (id : Nat) : Option Nat := (a.nodes[id]?.map (·.parent)).join

/-- The numbers that the node with a number lists; a number not in use has none. -/
def children (a : Arena) (id : Nat) : List Nat := (a.nodes[id]?.map (·.children)).getD []

def isToken (a : Arena) (id : Nat) : Bool := (a.nodes[id]?.map (·.text.isSome)).getD false

/-- Adds a node. Its number is the size that the arena had. -/
def push (a : Arena) (n : ArenaNode) : Arena := ⟨a.nodes.push n⟩

/-- Changes the node with a number, if there is one. -/
def modify (a : Arena) (id : Nat) (f : ArenaNode → ArenaNode) : Arena := ⟨a.nodes.modify id f⟩

/-- Lists a node as the last child of another. -/
def link (a : Arena) (parent child : Nat) : Arena := a.modify parent (·.addChild child)

end Arena

/-- How far a source has been copied: the arena so far and the end of the last token. -/
structure Lowering where
  arena : Arena
  gapStart : Nat

/-- Makes the node for a node of a source, without its children. What has no children is a token. -/
def Lowering.enter (s : Lowering) (text : List Char) (role : Option Role) (parent : Option Nat)
    (n : Node) : Lowering :=
  if n.children.isEmpty then
    let gap := String.ofList (Text.slice text ⟨s.gapStart, n.span.start⟩)
    ⟨s.arena.push ⟨n.kind, role, n.span, gap, some n.word, parent, []⟩, n.span.stop⟩
  else ⟨s.arena.push ⟨n.kind, role, n.span, "", none, parent, []⟩, s.gapStart⟩

mutual

/-- Copies a node and all below it, each before its children. A node knows its parent before the
parent lists it. -/
def Node.lower (text : List Char) (role : Option Role) (parent : Option Nat) (s : Lowering) :
    Node → Nat × Lowering
  | .leaf kind ownRole span word =>
    (s.arena.size, s.enter text role parent (.leaf kind ownRole span word))
  | .branch kind ownRole span children =>
    let opened := s.enter text role parent (.branch kind ownRole span children)
    (s.arena.size, Node.lowerAll text s.arena.size opened children)

def Node.lowerAll (text : List Char) (parent : Nat) (s : Lowering) : List Node → Lowering
  | [] => s
  | n :: ns =>
    let lowered := n.lower text n.role (some parent) s
    Node.lowerAll text parent ⟨lowered.2.arena.link parent lowered.1, lowered.2.gapStart⟩ ns

end

namespace Arena

/-- Copies a node of a source. The copy hangs off nothing and plays no part. -/
def lower (a : Arena) (text : List Char) (n : Node) : Nat × Arena :=
  let lowered := n.lower text none none ⟨a, n.span.start⟩
  (lowered.1, lowered.2.arena)

/-- The nodes that are met from those on a stack on, each before its children; none if there are
more of them than steps. -/
def walk (a : Arena) : Nat → List Nat → Option (List Nat)
  | _, [] => some []
  | 0, _ :: _ => none
  | steps + 1, id :: stack =>
    match a.nodes[id]? with
    | none => a.walk steps stack
    | some n => (a.walk steps (n.children ++ stack)).map (id :: ·)

/-- A node and all below it, each before its children. No walk along a forest takes more steps. -/
def descendants (a : Arena) (id : Nat) : List Nat := (a.walk (a.size + 1) [id]).getD []

/-- The tokens of a tree in order. -/
def leaves (a : Arena) (id : Nat) : List Nat := (a.descendants id).filter a.isToken

/-- Tokens written out; the gap in front of the first one is left out. -/
def renderTokens : List ArenaNode → String
  | [] => ""
  | t :: ts => t.text.getD "" ++ String.join (ts.map fun t => t.gap ++ t.text.getD "")

def render (a : Arena) (id : Nat) : Except ArenaError String := do
  let tokens ← (a.leaves id).mapM a.get
  .ok (renderTokens tokens)

/-- The node below `root` that was copied from a span and has a kind. -/
def findByOrigin? (a : Arena) (root : Nat) (origin : Span) (kind : String) : Option Nat :=
  (a.descendants root).find? fun id =>
    a.nodes[id]?.any fun n => n.origin = origin && n.kind.name == kind

/-- The node at the end of at most some parent links. -/
def climb (a : Arena) : Nat → Nat → Nat
  | 0, id => id
  | steps + 1, id =>
    match a.parent? id with
    | none => id
    | some p => a.climb steps p

/-- The node that a tree hangs off. Parents have smaller numbers than their children, so that a
number bounds the way up from it. -/
def rootOf (a : Arena) (id : Nat) : Nat := a.climb id id

def fetch (id : Nat) : Step ArenaNode := fun a =>
  match a.get id with
  | .ok n => .ok n a
  | .error e => .error e a

def update (id : Nat) (f : ArenaNode → ArenaNode) : Step Unit := fun a =>
  match a.get id with
  | .ok _ => .ok () (a.modify id f)
  | .error e => .error e a

def alloc (n : ArenaNode) : Step Nat := fun a => .ok a.size (a.push n)

def setText (id : Nat) (text : String) : Step Unit := do
  let n ← fetch id
  if n.text.isSome then update id fun n => { n with text := some text }
  else throw (.notAToken id)

/-- The number that comes after the last number of a part of a list. -/
def following? (all part : List Nat) : Option Nat := do
  let last ← part.getLast?
  let place ← all.idxOf? last
  all[place + 1]?

/-- The gap in front of the first of some tokens. -/
def gapBefore : List Nat → Step String
  | [] => pure ""
  | first :: _ => do pure (← fetch first).gap

/-- Gives the gap in front of a subtree to the token that follows the subtree, so that what started
a line still does when the subtree is gone. -/
def passGap (id : Nat) : Step Unit := do
  let a ← EStateM.get
  let leaves := a.leaves id
  let gap ← gapBefore leaves
  match following? (a.leaves (a.rootOf id)) leaves with
  | some next => update next fun n => { n with gap }
  | none => pure ()

/-- Takes a node off the list of its parent. -/
def unlist (id : Nat) : Option Nat → Step Unit
  | some p => update p (·.dropChild id)
  | none => pure ()

/-- Cuts a node off; it then is the root of a tree of its own. -/
def remove (id : Nat) : Step Unit := do
  let n ← fetch id
  passGap id
  unlist id n.parent
  update id fun n => { n with parent := none }

/-- Copies a node of `source` and all below it. The depth bounds the recursion; where children have
larger numbers than their parents, no node is as deep as there are nodes. -/
def cloneInto (source : Arena) : Nat → Option Nat → Nat → Step Nat
  | 0, _, id => throw (.unknownNode id)
  | depth + 1, parent, id => do
    let original ← MonadExcept.ofExcept (source.get id)
    let copy ← alloc { original with parent, children := [] }
    forM original.children fun child => do
      let childCopy ← cloneInto source depth (some copy) child
      update copy (·.addChild childCopy)
    pure copy

/-- Copies the node of an arena with a number into the arena at hand. -/
def clone (source : Arena) (id : Nat) : Step Nat := cloneInto source source.size none id

end Arena

end ClassSplit.Java
