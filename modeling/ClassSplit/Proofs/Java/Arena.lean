import ClassSplit.Java.Arena
import Mathlib.Data.List.Nodup

/-!
The links of an arena. A node names its parent and a parent lists its children, and the two are
written at different times: a new node knows its parent before the parent lists it. `Linked` says
that the links agree but for such pending nodes. Main statements: `Arena.Linked.push`,
`Arena.Linked.link`, `Arena.grows_lower`.
-/

namespace ClassSplit.Java

-- What no step changes about a node.
structure Label where
  kind : Kind
  origin : Span
  isToken : Bool
  deriving DecidableEq

def ArenaNode.label (n : ArenaNode) : Label := ⟨n.kind, n.origin, n.text.isSome⟩

def Node.label (n : Node) : Label := ⟨n.kind, n.span, n.children.isEmpty⟩

@[simp]
theorem ArenaNode.label_addChild (n : ArenaNode) (child : Nat) :
    (n.addChild child).label = n.label := rfl

namespace Arena

variable {a b : Arena} {id p c : Nat} {f : ArenaNode → ArenaNode}

def labels (a : Arena) : List Label := a.nodes.toList.map ArenaNode.label

section Access

@[simp]
theorem size_push (a : Arena) (n : ArenaNode) : (a.push n).size = a.size + 1 := Array.size_push n

@[simp]
theorem size_modify (a : Arena) (id : Nat) (f : ArenaNode → ArenaNode) :
    (a.modify id f).size = a.size := Array.size_modify

@[simp]
theorem size_link (a : Arena) (p c : Nat) : (a.link p c).size = a.size := size_modify ..

theorem length_labels (a : Arena) : a.labels.length = a.size := by
  rw [labels, List.length_map, Array.length_toList, size]

theorem labels_push (a : Arena) (n : ArenaNode) : (a.push n).labels = a.labels ++ [n.label] := by
  simp [labels, push]

-- What a change of a node leaves alone is the same for all nodes.
theorem map_getElem?_modify {α : Type} (g : ArenaNode → α) (h : ∀ n ∈ a.nodes[id]?, g (f n) = g n)
    (i : Nat) : (a.modify id f).nodes[i]?.map g = a.nodes[i]?.map g := by
  rw [modify, Array.getElem?_modify]
  split_ifs with hi
  · subst hi
    cases hn : a.nodes[id]? with
    | none => rfl
    | some n => exact congrArg some (h n hn)
  · rfl

theorem getElem?_labels (a : Arena) (i : Nat) :
    a.labels[i]? = a.nodes[i]?.map ArenaNode.label := by
  rw [labels, List.getElem?_map, Array.getElem?_toList]

theorem labels_modify (h : ∀ n ∈ a.nodes[id]?, (f n).label = n.label) :
    (a.modify id f).labels = a.labels :=
  List.ext_getElem? fun i => by
    rw [getElem?_labels, getElem?_labels, map_getElem?_modify _ h]

@[simp]
theorem labels_link (a : Arena) (p c : Nat) : (a.link p c).labels = a.labels :=
  labels_modify fun n _ => n.label_addChild c

theorem lt_size_iff : id < a.size ↔ ∃ n, a.nodes[id]? = some n := by
  simp only [Array.getElem?_eq_some_iff, size]
  exact ⟨fun h => ⟨a.nodes[id], h, rfl⟩, fun ⟨_, h, _⟩ => h⟩

theorem lt_size_of_parent? (h : a.parent? c = some p) : c < a.size := by
  rw [parent?, Option.join_eq_some_iff, Option.map_eq_some_iff] at h
  obtain ⟨n, hn, -⟩ := h
  exact lt_size_iff.mpr ⟨n, hn⟩

theorem lt_size_of_mem_children (h : c ∈ a.children p) : p < a.size := by
  rw [children] at h
  cases hn : a.nodes[p]? with
  | none =>
    rw [hn] at h
    cases h
  | some n => exact lt_size_iff.mpr ⟨n, hn⟩

theorem getElem?_push (a : Arena) (n : ArenaNode) (id : Nat) :
    (a.push n).nodes[id]? = if id = a.size then some n else a.nodes[id]? := Array.getElem?_push

theorem parent?_push (a : Arena) (n : ArenaNode) (id : Nat) :
    (a.push n).parent? id = if id = a.size then n.parent else a.parent? id := by
  rw [parent?, getElem?_push]
  split_ifs <;> rfl

theorem children_push (a : Arena) (n : ArenaNode) (id : Nat) :
    (a.push n).children id = if id = a.size then n.children else a.children id := by
  rw [children, getElem?_push]
  split_ifs <;> rfl

theorem isToken_push (a : Arena) (n : ArenaNode) (id : Nat) :
    (a.push n).isToken id = if id = a.size then n.text.isSome else a.isToken id := by
  rw [isToken, getElem?_push]
  split_ifs <;> rfl

theorem parent?_modify (h : ∀ n ∈ a.nodes[id]?, (f n).parent = n.parent) (c : Nat) :
    (a.modify id f).parent? c = a.parent? c := by
  rw [parent?, map_getElem?_modify (·.parent) h, parent?]

theorem children_modify (h : ∀ n ∈ a.nodes[id]?, (f n).children = n.children) (p : Nat) :
    (a.modify id f).children p = a.children p := by
  rw [children, map_getElem?_modify (·.children) h, children]

theorem isToken_modify (h : ∀ n ∈ a.nodes[id]?, (f n).text.isSome = n.text.isSome) (c : Nat) :
    (a.modify id f).isToken c = a.isToken c := by
  rw [isToken, map_getElem?_modify (·.text.isSome) h, isToken]

@[simp]
theorem parent?_link (a : Arena) (p c id : Nat) : (a.link p c).parent? id = a.parent? id := by
  rw [link, parent?_modify]
  exact fun _ _ => rfl

@[simp]
theorem isToken_link (a : Arena) (p c id : Nat) : (a.link p c).isToken id = a.isToken id := by
  rw [link, isToken_modify]
  exact fun _ _ => rfl

theorem children_link (h : p < a.size) (c q : Nat) :
    (a.link p c).children q = if q = p then a.children p ++ [c] else a.children q := by
  obtain ⟨n, hn⟩ := lt_size_iff.mp h
  simp only [children, link, modify, Array.getElem?_modify]
  by_cases hq : q = p
  case pos =>
    subst hq
    simp [hn, ArenaNode.addChild]
  case neg => rw [if_neg (Ne.symm hq), if_neg hq]

end Access

-- The links of an arena agree, but for some nodes that their parents do not list yet.
structure Linked (pending : List Nat) (a : Arena) : Prop where
  lt : ∀ {c p}, a.parent? c = some p → p < c
  mem_children : ∀ {c p}, c ∈ a.children p ↔ a.parent? c = some p ∧ c ∉ pending
  nodup : ∀ p, (a.children p).Nodup
  token : ∀ {p}, a.isToken p = true → a.children p = []
  pending : ∀ c ∈ pending, c < a.size

theorem linked_empty : Linked [] empty where
  lt h := by cases h
  mem_children {c p} := by
    constructor
    case mp => exact fun hc => by cases hc
    case mpr => exact fun hc => by cases hc.left
  nodup _ := List.nodup_nil
  token _ := rfl
  pending := by simp

namespace Linked

variable {pending : List Nat}

theorem parent? (h : a.Linked pending) (hc : c ∈ a.children p) : a.parent? c = some p :=
  (h.mem_children.mp hc).left

theorem lt_size (h : a.Linked pending) (hc : c ∈ a.children p) : c < a.size :=
  lt_size_of_parent? (h.parent? hc)

-- A node without children may be added below any node, and is then pending.
theorem push (h : a.Linked pending) {n : ArenaNode} (hparent : ∀ p ∈ n.parent, p < a.size)
    (hchildren : n.children = []) : (a.push n).Linked (a.size :: pending) where
  lt {c p} hc := by
    rw [parent?_push] at hc
    split_ifs at hc with heq
    · exact heq ▸ hparent p hc
    · exact h.lt hc
  mem_children {c p} := by
    rw [children_push, parent?_push, List.mem_cons, not_or, hchildren]
    -- The new number is in no list, as it was not in use.
    have hnew : a.parent? a.size = none := by
      refine Option.eq_none_iff_forall_ne_some.mpr fun q hq => ?_
      exact Nat.lt_irrefl _ (lt_size_of_parent? hq)
    have hnone : a.children a.size = [] :=
      List.eq_nil_iff_forall_not_mem.mpr fun q hq => Nat.lt_irrefl _ (lt_size_of_mem_children hq)
    have hold : (if p = a.size then [] else a.children p) = a.children p := by
      split_ifs with heq
      · rw [heq, hnone]
      · rfl
    rw [hold, h.mem_children]
    by_cases heq : c = a.size
    case pos => simp [heq, hnew]
    case neg => simp [heq]
  nodup p := by
    rw [children_push]
    split_ifs
    · rw [hchildren]
      exact List.nodup_nil
    · exact h.nodup p
  token {p} hp := by
    rw [isToken_push] at hp
    rw [children_push]
    split_ifs at hp ⊢
    · exact hchildren
    · exact h.token hp
  pending c hc := by
    rw [size_push]
    obtain rfl | hc := List.mem_cons.mp hc
    · exact Nat.lt_succ_self _
    · exact Nat.lt_succ_of_lt (h.pending c hc)

-- A pending node may be listed by its parent.
theorem link (h : a.Linked (c :: pending)) (hc : c ∉ pending) (hparent : a.parent? c = some p)
    (hp : p < a.size) (htoken : a.isToken p = false) : (a.link p c).Linked pending where
  lt {c p} hc := h.lt ((parent?_link ..).symm.trans hc)
  mem_children {d q} := by
    rw [children_link hp, parent?_link]
    have hd := h.mem_children (c := d) (p := q)
    rw [List.mem_cons, not_or] at hd
    split_ifs with hq
    · subst hq
      rw [List.mem_append, List.mem_singleton, hd]
      constructor
      case mp =>
        rintro (⟨hd, -, hpending⟩ | rfl)
        · exact ⟨hd, hpending⟩
        · exact ⟨hparent, hc⟩
      case mpr =>
        rintro ⟨hd, hpending⟩
        by_cases hdc : d = c
        case pos => exact .inr hdc
        case neg => exact .inl ⟨hd, hdc, hpending⟩
    · rw [hd]
      refine ⟨fun hd => ⟨hd.left, hd.right.right⟩, fun ⟨hdq, hd⟩ => ⟨hdq, ?_, hd⟩⟩
      rintro rfl
      exact hq (Option.some.inj (hdq.symm.trans hparent))
  nodup q := by
    rw [children_link hp]
    split_ifs with hq
    · refine List.nodup_append.mpr ⟨h.nodup p, List.nodup_singleton c, ?_⟩
      rintro d hd _ hmem rfl
      rw [List.mem_singleton.mp hmem] at hd
      exact (h.mem_children.mp hd).right List.mem_cons_self
    · exact h.nodup q
  token {q} hq := by
    rw [isToken_link] at hq
    rw [children_link hp, if_neg]
    · exact h.token hq
    · rintro rfl
      rw [htoken] at hq
      cases hq
  pending d hd := (size_link ..).symm ▸ h.pending d (List.mem_cons_of_mem c hd)

-- A node that hangs off nothing is not waiting to be listed.
theorem of_root (h : a.Linked (c :: pending)) (hroot : a.parent? c = none) : a.Linked pending where
  lt := h.lt
  mem_children {d p} := by
    rw [h.mem_children, List.mem_cons, not_or]
    refine ⟨fun hd => ⟨hd.left, hd.right.right⟩, fun hd => ⟨hd.left, ?_, hd.right⟩⟩
    rintro rfl
    rw [hroot] at hd
    cases hd.left
  nodup := h.nodup
  token := h.token
  pending d hd := h.pending d (List.mem_cons_of_mem c hd)

end Linked

-- The nodes of `a` are still there in `b`, each below the same node.
structure Extends (b a : Arena) : Prop where
  le : a.size ≤ b.size
  parent? : ∀ id < a.size, b.parent? id = a.parent? id
  isToken : ∀ id < a.size, b.isToken id = a.isToken id

theorem Extends.refl (a : Arena) : a.Extends a := ⟨Nat.le_refl _, fun _ _ => rfl, fun _ _ => rfl⟩

theorem Extends.trans {d : Arena} (h : d.Extends b) (h' : b.Extends a) : d.Extends a where
  le := Nat.le_trans h'.le h.le
  parent? id hid := (h.parent? id (Nat.lt_of_lt_of_le hid h'.le)).trans (h'.parent? id hid)
  isToken id hid := (h.isToken id (Nat.lt_of_lt_of_le hid h'.le)).trans (h'.isToken id hid)

theorem extends_push (a : Arena) (n : ArenaNode) : (a.push n).Extends a where
  le := by simp
  parent? id hid := by rw [parent?_push, if_neg (Nat.ne_of_lt hid)]
  isToken id hid := by rw [isToken_push, if_neg (Nat.ne_of_lt hid)]

theorem extends_link (a : Arena) (p c : Nat) : (a.link p c).Extends a where
  le := by simp
  parent? id _ := parent?_link a p c id
  isToken id _ := isToken_link a p c id

-- An arena into which a tree with some labels was put. Its root is pending.
structure Grows (pending : List Nat) (a : Arena) (parent : Option Nat) (labels : List Label)
    (root : Nat) (b : Arena) : Prop where
  root_eq : root = a.size
  linked : b.Linked (root :: pending)
  extends_ : b.Extends a
  parent? : b.parent? root = parent
  labels_eq : b.labels = a.labels ++ labels

-- The same for some trees below one node, which lists them.
structure GrowsBelow (pending : List Nat) (a : Arena) (labels : List Label) (b : Arena) :
    Prop where
  linked : b.Linked pending
  extends_ : b.Extends a
  labels_eq : b.labels = a.labels ++ labels

section Growth

variable {pending : List Nat} {parent : Option Nat} {ls ms : List Label}

theorem GrowsBelow.refl (h : a.Linked pending) : GrowsBelow pending a [] a :=
  ⟨h, .refl a, (List.append_nil _).symm⟩

theorem GrowsBelow.trans {d : Arena} (h : GrowsBelow pending a ls b)
    (h' : GrowsBelow pending b ms d) : GrowsBelow pending a (ls ++ ms) d where
  linked := h'.linked
  extends_ := h'.extends_.trans h.extends_
  labels_eq := by rw [h'.labels_eq, h.labels_eq, List.append_assoc]

-- The root of a new tree may be listed.
theorem Grows.link (h : Grows pending a (some p) ls c b) (hpending : ∀ d ∈ pending, d < a.size)
    (hp : p < a.size) (htoken : a.isToken p = false) : GrowsBelow pending a ls (b.link p c) where
  linked := by
    have hnew : c ∉ pending := fun hc => Nat.lt_irrefl _ (h.root_eq ▸ hpending c hc)
    exact h.linked.link hnew h.parent? (Nat.lt_of_lt_of_le hp h.extends_.le)
      ((h.extends_.isToken p hp).trans htoken)
  extends_ := (extends_link b p c).trans h.extends_
  labels_eq := by rw [labels_link, h.labels_eq]

-- A node may be added and then get children.
theorem grows_push {n : ArenaNode} (h : GrowsBelow (a.size :: pending) (a.push n) ls b) :
    Grows pending a n.parent (n.label :: ls) a.size b where
  root_eq := rfl
  linked := h.linked
  extends_ := h.extends_.trans (extends_push a n)
  parent? := by rw [h.extends_.parent? a.size (by simp), parent?_push, if_pos rfl]
  labels_eq := by rw [h.labels_eq, labels_push, List.append_assoc, List.singleton_append]

end Growth

end Arena

section Lowering

theorem Lowering.exists_enter (s : Lowering) (text : List Char) (role : Option Role)
    (parent : Option Nat) (n : Node) :
    ∃ m : ArenaNode, (s.enter text role parent n).arena = s.arena.push m ∧
      m.parent = parent ∧ m.children = [] ∧ m.label = n.label := by
  rw [enter]
  split_ifs with h
  · exact ⟨_, rfl, rfl, rfl, by simp [ArenaNode.label, Node.label, h]⟩
  · exact ⟨_, rfl, rfl, rfl, by simp [ArenaNode.label, Node.label, h]⟩

open Arena

mutual

theorem grows_lower {pending : List Nat} (text : List Char) (role : Option Role)
    {parent : Option Nat} {s : Lowering} (h : s.arena.Linked pending)
    (hparent : ∀ p ∈ parent, p < s.arena.size) (n : Node) :
    Grows pending s.arena parent (n.preorder.map Node.label)
      (n.lower text role parent s).1 (n.lower text role parent s).2.arena := by
  obtain ⟨m, hm, rfl, hchildren, hlabel⟩ := s.exists_enter text role parent n
  have hpushed := h.push hparent hchildren
  cases n with
  | leaf kind ownRole span word =>
    rw [Node.lower, hm, Node.preorder, List.map_singleton, ← hlabel]
    exact grows_push (.refl hpushed)
  | branch kind ownRole span children =>
    rw [Node.lower, Node.preorder, List.map_cons, ← hlabel]
    refine grows_push ?_
    rw [← hm] at hpushed ⊢
    refine growsBelow_lowerAll text hpushed (by simp [hm]) children fun hne => ?_
    have htoken : m.text.isSome = children.isEmpty := congrArg Label.isToken hlabel
    rw [hm, isToken_push, if_pos rfl, htoken, List.isEmpty_eq_false_iff]
    exact hne

theorem growsBelow_lowerAll {pending : List Nat} (text : List Char) {s : Lowering} {p : Nat}
    (h : s.arena.Linked pending) (hp : p < s.arena.size) (ns : List Node)
    (htoken : ns ≠ [] → s.arena.isToken p = false) :
    GrowsBelow pending s.arena ((Node.preorderAll ns).map Node.label)
      (Node.lowerAll text p s ns).arena := by
  cases ns with
  | nil => exact .refl h
  | cons n ns =>
    have htoken := htoken (List.cons_ne_nil n ns)
    have hfirst :=
      (grows_lower text n.role h (by simpa using hp) n).link h.pending hp htoken
    rw [Node.lowerAll, Node.preorderAll, List.map_append]
    generalize n.lower text n.role (some p) s = lowered at hfirst ⊢
    have hrest : GrowsBelow pending (lowered.2.arena.link p lowered.1) _ _ :=
      growsBelow_lowerAll text (s := ⟨_, lowered.2.gapStart⟩) hfirst.linked
        (Nat.lt_of_lt_of_le hp hfirst.extends_.le) ns fun _ =>
          (hfirst.extends_.isToken p hp).trans htoken
    exact hfirst.trans hrest

end

end Lowering

end ClassSplit.Java
