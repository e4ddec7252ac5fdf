import ClassSplit.Proofs.Java.Copy
import ClassSplit.Proofs.Text.Offset

/-!
Trees that are lowered. The nodes that a tree is lowered to follow each other as a walk along the
tree meets them, and each token brings the text between it and the token before it along, so that
no part of the source is lost. Main statements: `Arena.lower_eq`, `Arena.lossless_of_over`.
-/

namespace ClassSplit.Java

open Text

variable {text : List Char} {gapStart id p k : Nat} {role : Option Role} {parent : Option Nat}
  {n m : Node} {ns ms : List Node}

section Scan

-- What lowering says of nodes that it meets one after the other.
def entered (text : List Char) : Nat → List Node → List Entry
  | _, [] => []
  | gapStart, n :: ns =>
    if n.children.isEmpty then
      ⟨n.kind, n.span, String.ofList (Text.slice text ⟨gapStart, n.span.start⟩), some n.word⟩
        :: entered text n.span.stop ns
    else ⟨n.kind, n.span, "", none⟩ :: entered text gapStart ns

-- The end of the last token.
def tokenEnd : Nat → List Node → Nat
  | gapStart, [] => gapStart
  | gapStart, n :: ns =>
    if n.children.isEmpty then tokenEnd n.span.stop ns else tokenEnd gapStart ns

theorem entered_append (text : List Char) (gapStart : Nat) (ns ms : List Node) :
    entered text gapStart (ns ++ ms) =
      entered text gapStart ns ++ entered text (tokenEnd gapStart ns) ms := by
  induction ns generalizing gapStart with
  | nil => rfl
  | cons n ns ih =>
    rw [List.cons_append, entered, entered, tokenEnd]
    split_ifs
    · rw [ih, List.cons_append]
    · rw [ih, List.cons_append]

theorem tokenEnd_append (gapStart : Nat) (ns ms : List Node) :
    tokenEnd gapStart (ns ++ ms) = tokenEnd (tokenEnd gapStart ns) ms := by
  induction ns generalizing gapStart with
  | nil => rfl
  | cons n ns ih =>
    rw [List.cons_append, tokenEnd, tokenEnd]
    split_ifs
    · exact ih _
    · exact ih _

theorem entered_cons (text : List Char) (gapStart : Nat) (n : Node) (ns : List Node) :
    entered text gapStart (n :: ns) =
      entered text gapStart [n] ++ entered text (tokenEnd gapStart [n]) ns :=
  entered_append text gapStart [n] ns

theorem tokenEnd_cons (gapStart : Nat) (n : Node) (ns : List Node) :
    tokenEnd gapStart (n :: ns) = tokenEnd (tokenEnd gapStart [n]) ns :=
  tokenEnd_append gapStart [n] ns

-- Constructs have no say.
theorem filter_entered (text : List Char) (gapStart : Nat) (ns : List Node) :
    (entered text gapStart ns).filter (·.text.isSome) =
      entered text gapStart (ns.filter (·.children.isEmpty)) := by
  induction ns generalizing gapStart with
  | nil => rfl
  | cons n ns ih =>
    rw [entered]
    have hfilter : (n :: ns).filter (·.children.isEmpty) =
        if n.children.isEmpty then n :: ns.filter (·.children.isEmpty)
        else ns.filter (·.children.isEmpty) := List.filter_cons
    rw [hfilter]
    split_ifs with hleaf
    · rw [List.filter_cons_of_pos rfl, ih, entered, if_pos hleaf]
    · rw [List.filter_cons_of_neg (by simp), ih]

end Scan

namespace Node

-- The node that a node is lowered to, without its children.
def bare (text : List Char) (role : Option Role) (parent : Option Nat) (gapStart : Nat) (n : Node) :
    ArenaNode :=
  if n.children.isEmpty then
    ⟨n.kind, role, n.span, String.ofList (slice text ⟨gapStart, n.span.start⟩), some n.word, parent,
      []⟩
  else ⟨n.kind, role, n.span, "", none, parent, []⟩

-- The numbers of neighbours of which the first one has a number.
def numbers : Nat → List Node → List Nat
  | _, [] => []
  | id, n :: ns => id :: numbers (id + n.preorder.length) ns

mutual

-- The nodes that a tree is lowered to, the first of which has a number.
def lowered (text : List Char) (role : Option Role) (parent : Option Nat) (id gapStart : Nat) :
    Node → List ArenaNode
  | .leaf kind ownRole span word =>
    [(Node.leaf kind ownRole span word).bare text role parent gapStart]
  | .branch kind ownRole span children =>
    let n := Node.branch kind ownRole span children
    (n.bare text role parent gapStart).addChildren (numbers (id + 1) children)
      :: loweredAll text id (id + 1) (tokenEnd gapStart [n]) children

def loweredAll (text : List Char) (p id gapStart : Nat) : List Node → List ArenaNode
  | [] => []
  | n :: ns =>
    n.lowered text n.role (some p) id gapStart
      ++ loweredAll text p (id + n.preorder.length) (tokenEnd gapStart n.preorder) ns

end

theorem entry_bare (text : List Char) (role : Option Role) (parent : Option Nat) (gapStart : Nat)
    (n : Node) : [(n.bare text role parent gapStart).entry] = entered text gapStart [n] := by
  rw [bare, entered]
  split_ifs
  · rfl
  · rfl

theorem label_bare (text : List Char) (role : Option Role) (parent : Option Nat) (gapStart : Nat)
    (n : Node) : (n.bare text role parent gapStart).label = n.label := by
  rw [bare]
  split_ifs with h
  · simp [ArenaNode.label, Node.label, h]
  · simp [ArenaNode.label, Node.label, h]

mutual

theorem entries_lowered (text : List Char) (role : Option Role) (parent : Option Nat)
    (id gapStart : Nat) (n : Node) :
    (n.lowered text role parent id gapStart).map (·.entry) = entered text gapStart n.preorder := by
  cases n with
  | leaf => exact entry_bare ..
  | branch kind ownRole span children =>
    rw [lowered, preorder, entered_cons, List.map_cons, entries_loweredAll,
      ← entry_bare text role parent gapStart]
    rfl

theorem entries_loweredAll (text : List Char) (p id gapStart : Nat) (ns : List Node) :
    (loweredAll text p id gapStart ns).map (·.entry) =
      entered text gapStart (preorderAll ns) := by
  cases ns with
  | nil => rfl
  | cons n ns =>
    rw [loweredAll, preorderAll, List.map_append, entries_lowered, entries_loweredAll,
      entered_append]

end

theorem length_entered (text : List Char) (gapStart : Nat) (ns : List Node) :
    (entered text gapStart ns).length = ns.length := by
  induction ns generalizing gapStart with
  | nil => rfl
  | cons n ns ih =>
    rw [entered]
    split_ifs
    · rw [List.length_cons, ih, List.length_cons]
    · rw [List.length_cons, ih, List.length_cons]

@[simp]
theorem length_lowered (text : List Char) (role : Option Role) (parent : Option Nat)
    (id gapStart : Nat) (n : Node) :
    (n.lowered text role parent id gapStart).length = n.preorder.length := by
  have h := congrArg List.length (entries_lowered text role parent id gapStart n)
  rwa [List.length_map, length_entered] at h

@[simp]
theorem length_loweredAll (text : List Char) (p id gapStart : Nat) (ns : List Node) :
    (loweredAll text p id gapStart ns).length = (preorderAll ns).length := by
  have h := congrArg List.length (entries_loweredAll text p id gapStart ns)
  rwa [List.length_map, length_entered] at h

end Node

section Exact

open Arena

theorem Lowering.enter_eq (s : Lowering) (text : List Char) (role : Option Role)
    (parent : Option Nat) (n : Node) : s.enter text role parent n =
      ⟨s.arena.push (n.bare text role parent s.gapStart), tokenEnd s.gapStart [n]⟩ := by
  rw [enter, Node.bare, tokenEnd]
  split_ifs
  · rfl
  · rfl

mutual

theorem Node.lower_eq (text : List Char) (role : Option Role) (parent : Option Nat) (a : Arena)
    (gapStart : Nat) (n : Node) : n.lower text role parent ⟨a, gapStart⟩ =
      (a.size, ⟨a.extend (n.lowered text role parent a.size gapStart),
        tokenEnd gapStart n.preorder⟩) := by
  cases n with
  | leaf kind ownRole span word =>
    rw [Node.lower, Lowering.enter_eq, Node.lowered, extend_cons, extend_nil, Node.preorder]
  | branch kind ownRole span children =>
    have hbelow := Node.lowerAll_eq text a.size
      (a.push ((Node.branch kind ownRole span children).bare text role parent gapStart))
      (tokenEnd gapStart [.branch kind ownRole span children]) (by simp) children
    rw [size_push, modify_push] at hbelow
    rw [Node.lower, Lowering.enter_eq, hbelow, Node.lowered, extend_cons, Node.preorder,
      tokenEnd_cons gapStart _ (Node.preorderAll children)]

theorem Node.lowerAll_eq (text : List Char) (p : Nat) (a : Arena) (gapStart : Nat)
    (hp : p < a.size) (ns : List Node) : Node.lowerAll text p ⟨a, gapStart⟩ ns =
      ⟨(a.modify p (·.addChildren (numbers a.size ns))).extend
        (loweredAll text p a.size gapStart ns), tokenEnd gapStart (preorderAll ns)⟩ := by
  cases ns with
  | nil =>
    rw [Node.lowerAll, numbers, loweredAll, extend_nil, modify_addChildren_nil]
    rfl
  | cons n ns =>
    have hsize : p < (a.link p a.size).size := by rwa [size_link]
    have hrest := Node.lowerAll_eq text p
      ((a.link p a.size).extend (n.lowered text n.role (some p) a.size gapStart))
      (tokenEnd gapStart n.preorder) (by rw [size_extend]; omega) ns
    rw [modify_extend hsize, modify_link, size_extend, size_link, length_lowered] at hrest
    rw [Node.lowerAll, Node.lower_eq text n.role (some p) a gapStart n]
    simp only [link, modify_extend hp]
    rw [← link, hrest, numbers, loweredAll, preorderAll, tokenEnd_append, extend_append]

end

-- The arena after a tree was lowered is the one before with the nodes of the tree behind it.
theorem Arena.lower_eq (a : Arena) (text : List Char) (n : Node) : a.lower text n =
    (a.size, a.extend (n.lowered text none none a.size n.span.start)) := by
  rw [Arena.lower, Node.lower_eq]

end Exact

section Walk

variable {a : Arena}

-- Some nodes stand in an arena from a number on.
def Arena.HasAt (a : Arena) (id : Nat) (ns : List ArenaNode) : Prop :=
  ∀ k < ns.length, a.nodes[id + k]? = ns[k]?

namespace Arena.HasAt

variable {n : ArenaNode} {ns ms : List ArenaNode}

theorem head (h : a.HasAt id (n :: ns)) : a.nodes[id]? = some n := h 0 (Nat.zero_lt_succ _)

theorem left (h : a.HasAt id (ns ++ ms)) : a.HasAt id ns := by
  intro k hk
  rw [h k (by rw [List.length_append]; omega), List.getElem?_append_left hk]

theorem right (h : a.HasAt id (ns ++ ms)) : a.HasAt (id + ns.length) ms := by
  intro k hk
  have hplace := h (ns.length + k) (by rw [List.length_append]; omega)
  rw [List.getElem?_append_right (Nat.le_add_right _ _), Nat.add_sub_cancel_left] at hplace
  rw [Nat.add_assoc, hplace]

theorem tail (h : a.HasAt id (n :: ns)) : a.HasAt (id + 1) ns := by
  rw [← List.singleton_append] at h
  exact h.right

theorem length_le (h : a.HasAt id ns) : ns.length ≤ a.size := by
  cases ns with
  | nil => exact Nat.zero_le _
  | cons n ns =>
    have hlast := h ns.length (Nat.lt_succ_self _)
    have hlt : id + ns.length < a.size :=
      lt_size_iff.mpr ⟨_, hlast.trans (List.getElem?_eq_getElem (Nat.lt_succ_self _))⟩
    rw [List.length_cons]
    omega

-- The tokens among the nodes.
theorem filterMap_tokens (h : a.HasAt id ns) :
    ((List.range' id ns.length).filter a.isToken).filterMap (a.nodes[·]?) =
      ns.filter (·.text.isSome) := by
  induction ns generalizing id with
  | nil => rfl
  | cons n ns ih =>
    have htoken : a.isToken id = n.text.isSome := by rw [isToken, h.head]; rfl
    rw [List.length_cons, List.range'_succ, List.filter_cons, List.filter_cons, htoken]
    split_ifs
    · rw [List.filterMap_cons_some h.head, ih h.tail]
    · exact ih h.tail

end Arena.HasAt

theorem Arena.hasAt_extend (a : Arena) (ns : List ArenaNode) : (a.extend ns).HasAt a.size ns :=
  fun k _ => a.getElem?_extend_add ns k

theorem Node.children_bare (text : List Char) (role : Option Role) (parent : Option Nat)
    (gapStart : Nat) (n : Node) : (n.bare text role parent gapStart).children = [] := by
  rw [bare]
  split_ifs
  · rfl
  · rfl

mutual

-- The walk along a tree that was lowered meets its nodes in the order in which they were made.
theorem Node.walk_lowered {a : Arena} {text : List Char} {role : Option Role} {parent : Option Nat}
    {id gapStart : Nat} (n : Node) (h : a.HasAt id (n.lowered text role parent id gapStart))
    (steps : Nat) (stack : List Nat) : a.walk (steps + n.preorder.length) (id :: stack) =
      (a.walk steps stack).map (List.range' id n.preorder.length ++ ·) := by
  cases n with
  | leaf kind ownRole span word =>
    rw [Node.preorder, List.length_singleton, Arena.walk, h.head]
    simp only [Node.children_bare, List.nil_append]
    rfl
  | branch kind ownRole span children =>
    have hbelow := Node.walk_loweredAll children h.tail steps stack
    rw [Node.preorder, List.length_cons, ← Nat.add_assoc, Arena.walk, h.head]
    simp only [ArenaNode.addChildren, Node.children_bare, List.nil_append]
    rw [hbelow, Option.map_map]
    rfl

theorem Node.walk_loweredAll {a : Arena} {text : List Char} {p id gapStart : Nat} (ns : List Node)
    (h : a.HasAt id (loweredAll text p id gapStart ns)) (steps : Nat) (stack : List Nat) :
    a.walk (steps + (preorderAll ns).length) (numbers id ns ++ stack) =
      (a.walk steps stack).map (List.range' id (preorderAll ns).length ++ ·) := by
  cases ns with
  | nil => exact (Option.map_id_apply ..).symm
  | cons n ns =>
    have hrest := h.right
    rw [length_lowered] at hrest
    have hsteps : steps + (n.preorder.length + (preorderAll ns).length) =
        steps + (preorderAll ns).length + n.preorder.length := by omega
    rw [numbers, preorderAll, List.length_append, List.cons_append, hsteps,
      Node.walk_lowered n h.left, Node.walk_loweredAll ns hrest, Option.map_map,
      ← List.range'_append_1]
    simp only [Function.comp_def, List.append_assoc]

end

theorem Node.descendants_of_hasAt (h : a.HasAt id (n.lowered text role parent id gapStart)) :
    a.descendants id = List.range' id n.preorder.length := by
  have hle := h.length_le
  rw [length_lowered] at hle
  have hwalk := n.walk_lowered h (a.size + 1 - n.preorder.length) []
  rw [Nat.sub_add_cancel (Nat.le_succ_of_le hle)] at hwalk
  rw [Arena.descendants, hwalk]
  simp [Arena.walk]

mutual

-- What a tree is lowered to holds what its nodes are lowered to.
theorem Node.exists_hasAt {a : Arena} {text : List Char} {role : Option Role} {parent : Option Nat}
    {id gapStart k : Nat} {m : Node} (n : Node)
    (h : a.HasAt id (n.lowered text role parent id gapStart)) (hk : n.preorder[k]? = some m) :
    ∃ role parent gapStart, a.HasAt (id + k) (m.lowered text role parent (id + k) gapStart) := by
  cases n with
  | leaf kind ownRole span word =>
    cases k with
    | zero =>
      cases hk
      exact ⟨_, _, _, h⟩
    | succ k => cases hk
  | branch kind ownRole span children =>
    cases k with
    | zero =>
      cases hk
      exact ⟨_, _, _, h⟩
    | succ k =>
      have hbelow := Node.exists_hasAtAll children h.tail (k := k) hk
      rwa [Nat.add_assoc, Nat.add_comm 1 k] at hbelow

theorem Node.exists_hasAtAll {a : Arena} {text : List Char} {p id gapStart k : Nat} {m : Node}
    (ns : List Node) (h : a.HasAt id (loweredAll text p id gapStart ns))
    (hk : (preorderAll ns)[k]? = some m) :
    ∃ role parent gapStart, a.HasAt (id + k) (m.lowered text role parent (id + k) gapStart) := by
  cases ns with
  | nil => cases hk
  | cons n ns =>
    rw [preorderAll] at hk
    by_cases hlt : k < n.preorder.length
    case pos =>
      rw [List.getElem?_append_left hlt] at hk
      exact Node.exists_hasAt n h.left hk
    case neg =>
      have hle := Nat.not_lt.mp hlt
      rw [List.getElem?_append_right hle] at hk
      have hrest := h.right
      rw [length_lowered] at hrest
      have hfound := Node.exists_hasAtAll ns hrest hk
      rwa [Nat.add_assoc, Nat.add_sub_cancel' hle] at hfound

end

end Walk

section Over

-- The tokens and comments of a tree, in order.
def Node.tokens (n : Node) : List Node := n.preorder.filter (·.children.isEmpty)

-- A token that says what the text has at its span, which may be empty.
structure Node.Reads (text : List Char) (t : Node) : Prop where
  fits : t.span.FitsIn text
  word : t.word.toList = slice text t.span

-- A tree over a text. Its tokens follow each other, and each node of it reaches from its first
-- token to its last.
structure Node.Over (text : List Char) (n : Node) : Prop where
  reads : ∀ t ∈ n.tokens, t.Reads text
  inOrder : n.tokens.Pairwise (·.span.stop ≤ ·.span.start)
  first : ∀ m ∈ n.preorder, m.tokens.head?.map (·.span.start) = some m.span.start
  last : ∀ m ∈ n.preorder, m.tokens.getLast?.map (·.span.stop) = some m.span.stop

instance (text : List Char) (t : Node) : Decidable (t.Reads text) :=
  decidable_of_iff (t.span.FitsIn text ∧ t.word.toList = slice text t.span)
    ⟨fun h => ⟨h.left, h.right⟩, fun h => ⟨h.fits, h.word⟩⟩

instance (text : List Char) (n : Node) : Decidable (n.Over text) :=
  decidable_of_iff
    ((∀ t ∈ n.tokens, t.Reads text) ∧ n.tokens.Pairwise (·.span.stop ≤ ·.span.start) ∧
      (∀ m ∈ n.preorder, m.tokens.head?.map (·.span.start) = some m.span.start) ∧
      ∀ m ∈ n.preorder, m.tokens.getLast?.map (·.span.stop) = some m.span.stop)
    ⟨fun ⟨reads, inOrder, first, last⟩ => ⟨reads, inOrder, first, last⟩,
      fun h => ⟨h.reads, h.inOrder, h.first, h.last⟩⟩

theorem Node.mem_preorder_self (n : Node) : n ∈ n.preorder := by
  cases n with
  | leaf => exact List.mem_singleton_self _
  | branch => exact List.mem_cons_self

mutual

theorem Node.preorder_sublist (m n : Node) (h : m ∈ n.preorder) :
    m.preorder.Sublist n.preorder := by
  cases n with
  | leaf =>
    rw [List.mem_singleton.mp h]
  | branch kind role span children =>
    obtain rfl | h := List.mem_cons.mp h
    · exact .refl _
    · exact (Node.preorder_sublistAll m children h).cons _

theorem Node.preorder_sublistAll (m : Node) (ns : List Node) (h : m ∈ preorderAll ns) :
    m.preorder.Sublist (preorderAll ns) := by
  cases ns with
  | nil => cases h
  | cons n ns =>
    obtain h | h := List.mem_append.mp h
    · exact (Node.preorder_sublist m n h).trans (List.sublist_append_left _ _)
    · exact (Node.preorder_sublistAll m ns h).trans (List.sublist_append_right _ _)

end

theorem Node.Over.of_mem_preorder (h : n.Over text) (hm : m ∈ n.preorder) : m.Over text :=
  have hsub := m.preorder_sublist n hm
  { reads := fun t ht => h.reads t ((hsub.filter _).subset ht)
    inOrder := h.inOrder.sublist (hsub.filter _)
    first := fun k hk => h.first k (hsub.subset hk)
    last := fun k hk => h.last k (hsub.subset hk) }

-- Tokens that follow each other from an offset on.
structure Follow (text : List Char) (gapStart : Nat) (ts : List Node) : Prop where
  leaf : ∀ t ∈ ts, t.children.isEmpty = true
  reads : ∀ t ∈ ts, t.Reads text
  inOrder : ts.Pairwise (·.span.stop ≤ ·.span.start)
  start : ∀ t ∈ ts, gapStart ≤ t.span.start
  bound : isBoundary gapStart text = true

namespace Follow

variable {t : Node} {ts : List Node}

theorem tail (h : Follow text gapStart (t :: ts)) : Follow text t.span.stop ts where
  leaf u hu := h.leaf u (List.mem_cons_of_mem t hu)
  reads u hu := h.reads u (List.mem_cons_of_mem t hu)
  inOrder := (List.pairwise_cons.mp h.inOrder).right
  start := (List.pairwise_cons.mp h.inOrder).left
  bound := (h.reads t List.mem_cons_self).fits.stop

theorem entered_eq (h : Follow text gapStart (t :: ts)) : entered text gapStart (t :: ts) =
    ⟨t.kind, t.span, String.ofList (slice text ⟨gapStart, t.span.start⟩), some t.word⟩
      :: entered text t.span.stop ts := by
  rw [entered, if_pos (h.leaf t List.mem_cons_self)]

theorem tokenEnd_eq (h : Follow text gapStart (t :: ts)) :
    tokenEnd gapStart (t :: ts) = tokenEnd t.span.stop ts := by
  rw [tokenEnd, if_pos (h.leaf t List.mem_cons_self)]

theorem le_tokenEnd (h : Follow text gapStart ts) : gapStart ≤ tokenEnd gapStart ts := by
  induction ts generalizing gapStart with
  | nil => exact Nat.le_refl _
  | cons t ts ih =>
    have hordered : t.span.start ≤ t.span.stop := (h.reads t List.mem_cons_self).fits.ordered
    have hstart := h.start t List.mem_cons_self
    have hrest := ih h.tail
    rw [h.tokenEnd_eq]
    omega

theorem isBoundary_tokenEnd (h : Follow text gapStart ts) :
    isBoundary (tokenEnd gapStart ts) text = true := by
  induction ts generalizing gapStart with
  | nil => exact h.bound
  | cons t ts ih =>
    rw [h.tokenEnd_eq]
    exact ih h.tail

theorem getLast?_stop (h : Follow text gapStart (t :: ts)) :
    (t :: ts).getLast?.map (·.span.stop) = some (tokenEnd t.span.stop ts) := by
  induction ts generalizing t gapStart with
  | nil => rfl
  | cons u ts ih =>
    rw [List.getLast?_cons_cons, ih h.tail, h.tail.tokenEnd_eq]

-- Together with the gaps in front of them the tokens are the text up to the end of the last one.
theorem toList_join {ns : List ArenaNode} (h : Follow text gapStart ts)
    (hns : ns.map (·.entry) = entered text gapStart ts) :
    (String.join (ns.map fun t => t.gap ++ t.text.getD "")).toList =
      slice text ⟨gapStart, tokenEnd gapStart ts⟩ := by
  induction ts generalizing ns gapStart with
  | nil =>
    rw [entered, List.map_eq_nil_iff] at hns
    rw [hns]
    exact (slice_point text gapStart).symm
  | cons t ts ih =>
    rw [h.entered_eq] at hns
    obtain ⟨n, ns, rfl, hn, hns⟩ := List.map_eq_cons_iff.mp hns
    have hgap : n.gap = String.ofList (slice text ⟨gapStart, t.span.start⟩) :=
      congrArg Entry.gap hn
    have htext : n.text = some t.word := congrArg Entry.text hn
    have ⟨hfits, hword⟩ := h.reads t List.mem_cons_self
    have hstart := h.start t List.mem_cons_self
    rw [List.map_cons, String.join_cons, String.toList_append, String.toList_append,
      ih h.tail hns, hgap, htext, Option.getD_some, hword, String.toList_ofList, h.tokenEnd_eq,
      slice_append hstart hfits.ordered h.bound hfits.start hfits.stop,
      slice_append (Nat.le_trans hstart hfits.ordered) h.tail.le_tokenEnd h.bound hfits.stop
        h.tail.isBoundary_tokenEnd]

end Follow

theorem Node.Over.exists_follow (h : n.Over text) : ∃ t ts, n.tokens = t :: ts ∧
    Follow text n.span.start (t :: ts) ∧ t.span.start = n.span.start ∧
      tokenEnd t.span.stop ts = n.span.stop := by
  have hfirst := h.first n n.mem_preorder_self
  have hlast := h.last n n.mem_preorder_self
  have hreads := h.reads
  have hinOrder := h.inOrder
  have hleaf (t : Node) (ht : t ∈ n.tokens) : t.children.isEmpty = true :=
    (List.mem_filter.mp ht).right
  cases hsplit : n.tokens with
  | nil =>
    rw [hsplit] at hfirst
    cases hfirst
  | cons t ts =>
    rw [hsplit] at hfirst hlast hreads hinOrder hleaf
    have hstart : t.span.start = n.span.start := Option.some.inj hfirst
    have hfits := (hreads t List.mem_cons_self).fits
    have hfollow : Follow text n.span.start (t :: ts) := by
      refine ⟨hleaf, hreads, hinOrder, fun u hu => ?_, hstart ▸ hfits.start⟩
      obtain rfl | hu := List.mem_cons.mp hu
      · exact Nat.le_of_eq hstart.symm
      · have hbehind := (List.pairwise_cons.mp hinOrder).left u hu
        exact hstart ▸ Nat.le_trans hfits.ordered hbehind
    rw [hfollow.getLast?_stop] at hlast
    exact ⟨t, ts, rfl, hfollow, hstart, Option.some.inj hlast⟩

theorem Node.tokens_of_hasAt {a : Arena}
    (hat : a.HasAt id (n.lowered text role parent id gapStart)) :
    a.tokens id = entered text gapStart n.tokens := by
  have htokens : (a.leaves id).filterMap (a.nodes[·]?) =
      (n.lowered text role parent id gapStart).filter (·.text.isSome) := by
    rw [← hat.filterMap_tokens, length_lowered, Arena.leaves, Node.descendants_of_hasAt hat]
  rw [Arena.tokens, ← Arena.map_entry_filterMap, htokens, Node.tokens, ← filter_entered,
    ← entries_lowered text role parent id, List.filter_map]
  rfl

theorem Node.Over.render_of_hasAt {a : Arena} (h : n.Over text)
    (hat : a.HasAt id (n.lowered text role parent id gapStart)) :
    a.render id = .ok (String.ofList (slice text n.span)) := by
  obtain ⟨t, ts, hsplit, hfollow, hstart, hstop⟩ := h.exists_follow
  have hentries : ((a.leaves id).filterMap (a.nodes[·]?)).map (·.entry) =
      entered text gapStart (t :: ts) := by
    rw [Arena.map_entry_filterMap, ← hsplit]
    exact Node.tokens_of_hasAt hat
  rw [entered, if_pos (hfollow.leaf t List.mem_cons_self)] at hentries
  obtain ⟨c, cs, hcs, hc, hrest⟩ := List.map_eq_cons_iff.mp hentries
  have htext : c.text = some t.word := congrArg Entry.text hc
  have ⟨hfits, hword⟩ := hfollow.reads t List.mem_cons_self
  -- The gap in front of the first token is not written out.
  have hwritten : (Arena.renderTokens (c :: cs)).toList = slice text n.span := by
    rw [Arena.renderTokens, String.toList_append, hfollow.tail.toList_join hrest, htext,
      Option.getD_some, hword,
      slice_append hfits.ordered hfollow.tail.le_tokenEnd hfits.start hfits.stop
        hfollow.tail.isBoundary_tokenEnd, hstart, hstop]
  rw [Arena.render_eq, hcs, ← hwritten, String.ofList_toList]

namespace Arena

-- From a number on, an arena holds a copy of a tree, each node before its children.
structure CopyAt (b : Arena) (id : Nat) (n : Node) : Prop where
  walk : b.descendants id = List.range' id n.preorder.length
  label : ∀ k m, n.preorder[k]? = some m → (b.nodes[id + k]?).map (·.label) = some m.label

theorem copyAt_of_hasAt {b : Arena} (hat : b.HasAt id (n.lowered text role parent id gapStart)) :
    b.CopyAt id n where
  walk := Node.descendants_of_hasAt hat
  label k m hk := by
    obtain ⟨role, parent, gapStart, hat⟩ := Node.exists_hasAt n hat hk
    cases m with
    | leaf kind ownRole span word => rw [hat.head, Option.map_some, Node.label_bare]
    | branch kind ownRole span children =>
      have hnode := hat.head
      rw [hnode, Option.map_some]
      exact congrArg some (Node.label_bare ..)

-- What the tokens of a tree that was lowered say.
theorem tokens_lower (a : Arena) (text : List Char) (n : Node) :
    (a.lower text n).2.tokens (a.lower text n).1 = entered text n.span.start n.tokens := by
  rw [lower_eq]
  exact Node.tokens_of_hasAt (a.hasAt_extend _)

-- Whatever an arena holds already, no part of the source is lost when a tree is lowered into it:
-- the copy of the tree and those of all that is in it write out the text, and no old node is changed.
theorem lossless_of_over (h : n.Over text) (a : Arena) :
    (a.lower text n).1 = a.size ∧
      (∀ i < a.size, (a.lower text n).2.nodes[i]? = a.nodes[i]?) ∧
      (a.lower text n).2.render a.size = .ok (String.ofList (slice text n.span)) ∧
      ∀ k m, n.preorder[k]? = some m → (a.lower text n).2.CopyAt (a.size + k) m ∧
        (a.lower text n).2.render (a.size + k) = .ok (String.ofList (slice text m.span)) := by
  have hat := a.hasAt_extend (n.lowered text none none a.size n.span.start)
  rw [lower_eq]
  refine ⟨rfl, fun i hi => ?_, h.render_of_hasAt hat, fun k m hk => ?_⟩
  · rw [getElem?_extend, if_pos hi]
  · obtain ⟨role, parent, gapStart, hat⟩ := Node.exists_hasAt n hat hk
    have hm := h.of_mem_preorder (List.mem_of_getElem? hk)
    exact ⟨copyAt_of_hasAt hat, hm.render_of_hasAt hat⟩

theorem lossless_of_comment_and_missing_token :
    let text := "x = 1 /* ; */".toList
    let n := Node.branch .program none ⟨0, 13⟩
      [.branch .expressionStatement none ⟨0, 5⟩
          [.leaf .identifier none ⟨0, 1⟩ "x", .leaf (.token "=") none ⟨2, 3⟩ "=",
            .leaf .decimalIntegerLiteral none ⟨4, 5⟩ "1", .leaf (.token ";") none ⟨5, 5⟩ ""],
        .leaf .blockComment none ⟨6, 13⟩ "/* ; */"]
    let a := (empty.lower text n).2
    n.Over text ∧ (a.lower text n).1 = a.size ∧
      (∀ i < a.size, (a.lower text n).2.nodes[i]? = a.nodes[i]?) ∧
      (a.lower text n).2.render a.size = .ok (String.ofList (slice text n.span)) ∧
      ∀ k m, n.preorder[k]? = some m → (a.lower text n).2.CopyAt (a.size + k) m ∧
        (a.lower text n).2.render (a.size + k) = .ok (String.ofList (slice text m.span)) := by
  intro text n a
  have h : n.Over text := by decide
  exact ⟨h, lossless_of_over h a⟩

end Arena

end Over

end ClassSplit.Java
