import ClassSplit.Java.Kind
import ClassSplit.Text.Span

/-!
Syntax trees of Java source. A leaf is a token or a comment and carries its text; a branch is a
construct and spans its children from the first to the last. A `Site` is a node together with the
nodes around it, so that one can go up as well as down.
-/

namespace ClassSplit.Java

inductive Node where
  | leaf (kind : Kind) (role : Option Role) (span : Span) (text : String)
  | branch (kind : Kind) (role : Option Role) (span : Span) (children : List Node)

namespace Node

instance : Inhabited Node := ⟨.branch .program none ⟨0, 0⟩ []⟩

def kind : Node → Kind
  | leaf kind _ _ _ => kind
  | branch kind _ _ _ => kind

def role : Node → Option Role
  | leaf _ role _ _ => role
  | branch _ role _ _ => role

def span : Node → Span
  | leaf _ _ span _ => span
  | branch _ _ span _ => span

def children : Node → List Node
  | leaf .. => []
  | branch _ _ _ children => children

def withRole (role : Role) : Node → Node
  | leaf kind _ span text => leaf kind (some role) span text
  | branch kind _ span children => branch kind (some role) span children

def isNamed (n : Node) : Bool := n.kind.isNamed

def isComment (n : Node) : Bool := n.kind.isComment

/-- The children that are constructs or comments. -/
def namedChildren (n : Node) : List Node := n.children.filter isNamed

/-- The first child that plays a part. -/
def child? (n : Node) (role : Role) : Option Node := n.children.find? (·.role = some role)

def childOfKind? (n : Node) (kind : Kind) : Option Node := n.children.find? (·.kind = kind)

/-- The text of a token. -/
def word : Node → String
  | leaf _ _ _ text => text
  | branch .. => ""

mutual

/-- All nodes of the tree, each before its children. -/
def preorder : Node → List Node
  | leaf kind role span text => [leaf kind role span text]
  | branch kind role span children =>
    branch kind role span children :: preorderAll children

def preorderAll : List Node → List Node
  | [] => []
  | n :: ns => n.preorder ++ preorderAll ns

end

theorem sizeOf_lt_of_mem_children {n c : Node} (h : c ∈ n.children) : sizeOf c < sizeOf n := by
  cases n with
  | leaf => simp [children] at h
  | branch kind role span children =>
    have := List.sizeOf_lt_of_mem h
    simp only [branch.sizeOf_spec]
    simp only [Node.children] at this
    omega

theorem sizeOf_lt_of_child? {n c : Node} {role : Role} (h : n.child? role = some c) :
    sizeOf c < sizeOf n :=
  sizeOf_lt_of_mem_children (List.mem_of_find?_eq_some h)

theorem sizeOf_lt_of_head?_namedChildren {n c : Node} (h : n.namedChildren.head? = some c) :
    sizeOf c < sizeOf n :=
  sizeOf_lt_of_mem_children (List.mem_filter.1 (List.mem_of_mem_head? h)).1

theorem preorderAll_eq_flatMap (ns : List Node) : preorderAll ns = ns.flatMap preorder := by
  induction ns with
  | nil => rfl
  | cons n ns ih => simp [preorderAll, ih]

end Node

/-- A node and the nodes that contain it, the innermost first. -/
structure Site where
  node : Node
  above : List Node

namespace Site

def root (n : Node) : Site := ⟨n, []⟩

def kind (s : Site) : Kind := s.node.kind

def role (s : Site) : Option Role := s.node.role

def span (s : Site) : Span := s.node.span

def parent? (s : Site) : Option Site :=
  match s.above with
  | [] => none
  | p :: above => some ⟨p, above⟩

/-- The enclosing sites, the innermost first. -/
def ancestors (s : Site) : List Site := go s.above
where
  go : List Node → List Site
    | [] => []
    | p :: above => ⟨p, above⟩ :: go above

def below (s : Site) (n : Node) : Site := ⟨n, s.node :: s.above⟩

def children (s : Site) : List Site := s.node.children.map s.below

def namedChildren (s : Site) : List Site := s.node.namedChildren.map s.below

def child? (s : Site) (role : Role) : Option Site := (s.node.child? role).map s.below

end Site

mutual

/-- The sites of a tree, each before those below it. -/
def Node.sites (above : List Node) : Node → List Site
  | .leaf kind role span text => [⟨.leaf kind role span text, above⟩]
  | .branch kind role span children =>
    ⟨.branch kind role span children, above⟩
      :: Node.sitesAll (.branch kind role span children :: above) children

def Node.sitesAll (above : List Node) : List Node → List Site
  | [] => []
  | n :: ns => n.sites above ++ Node.sitesAll above ns

end

/-- The site itself and all below it, each before those below it. -/
def Site.preorder (s : Site) : List Site := s.node.sites s.above

end ClassSplit.Java
