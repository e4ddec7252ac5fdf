import ClassSplit.Proofs.Java.Copy

/-!
Trees that are cloned. The nodes below a node are copied in the order in which a walk meets them,
and the copy of each takes over everything but the numbers that it is linked to: these become the
numbers of the copies. Main statements: `Arena.run_clone`, `Arena.tokens_clone`.
-/

namespace ClassSplit.Java

namespace Arena

variable {a b source : Arena} {depth id p : Nat} {parent : Option Nat} {number : Nat → Nat}
  {n : ArenaNode} {cs : List Nat}

-- What the copy of a node with a number is, given the numbers of all copies.
def copied (source : Arena) (number : Nat → Nat) (parent : Option Nat) (root id : Nat) :
    Option ArenaNode :=
  source.nodes[id]?.map fun n =>
    { n with
      parent := if id = root then parent else n.parent.map number
      children := n.children.map number }

-- The copies of a node and of those below it, down to some depth.
def copiesTo (source : Arena) (number : Nat → Nat) (parent : Option Nat) (depth root : Nat) :
    List ArenaNode :=
  (source.preorderTo depth root).filterMap (source.copied number parent root)

-- Some nodes have numbers from one on, in their order.
def NumberedFrom (number : Nat → Nat) (start : Nat) (ids : List Nat) : Prop :=
  ∀ (k id : Nat), ids[k]? = some id → number id = start + k

theorem NumberedFrom.head {start : Nat} {ids : List Nat}
    (h : NumberedFrom number start (id :: ids)) : number id = start := h 0 id rfl

theorem NumberedFrom.left {start : Nat} {ids ids' : List Nat}
    (h : NumberedFrom number start (ids ++ ids')) : NumberedFrom number start ids := by
  intro k id hk
  have hlt : k < ids.length := (List.getElem?_eq_some_iff.mp hk).choose
  exact h k id (by rw [List.getElem?_append_left hlt, hk])

theorem NumberedFrom.right {start : Nat} {ids ids' : List Nat}
    (h : NumberedFrom number start (ids ++ ids')) :
    NumberedFrom number (start + ids.length) ids' := by
  intro k id hk
  have hplace := h (ids.length + k) id (by
    rw [List.getElem?_append_right (Nat.le_add_right _ _), Nat.add_sub_cancel_left, hk])
  rw [hplace, Nat.add_assoc]

theorem NumberedFrom.tail {start : Nat} {ids : List Nat}
    (h : NumberedFrom number start (id :: ids)) : NumberedFrom number (start + 1) ids := by
  rw [← List.singleton_append] at h
  exact h.right

-- Every node that there is has a copy.
theorem map_some_copied {root : Nat} {ids : List Nat} (h : ∀ id ∈ ids, id < source.size) :
    (ids.filterMap (source.copied number parent root)).map some =
      ids.map (source.copied number parent root) := by
  induction ids with
  | nil => rfl
  | cons id ids ih =>
    obtain ⟨n, hn⟩ := lt_size_iff.mp (h id List.mem_cons_self)
    obtain ⟨c, hc⟩ : ∃ c, source.copied number parent root id = some c := by
      rw [copied, hn]
      exact ⟨_, rfl⟩
    rw [List.filterMap_cons_some hc, List.map_cons, List.map_cons, hc,
      ih fun id hid => h id (List.mem_cons_of_mem _ hid)]

section Run

variable (hsource : source.Linked [])
include hsource

theorem length_copiesTo (hid : id < source.size) :
    (source.copiesTo number parent depth id).length = (source.preorderTo depth id).length := by
  have hall : (source.copiesTo number parent depth id).map some = _ :=
    map_some_copied fun m hm => hsource.lt_size_of_mem_preorderTo hid hm
  have hlength := congrArg List.length hall
  rwa [List.length_map, List.length_map] at hlength

theorem copiesTo_succ (hn : source.nodes[id]? = some n) (hnumber : number id = p) :
    source.copiesTo number parent (depth + 1) id =
      { n with parent, children := n.children.map number }
        :: n.children.flatMap (source.copiesTo number (some p) depth) := by
  have hchildren : source.children id = n.children := by rw [children, hn]; rfl
  have hroot : source.copied number parent id id =
      some { n with parent, children := n.children.map number } := by
    rw [copied, hn, Option.map_some, if_pos rfl]
  rw [copiesTo, preorderTo, List.filterMap_cons_some hroot, hchildren, List.filterMap_flatMap]
  refine congrArg _ (List.flatMap_congr fun c hc => List.filterMap_congr fun m hm => ?_)
  rw [← hchildren] at hc
  have hparent := hsource.parent? hc
  have hbelow := hsource.below_of_mem_preorderTo hm
  have hne : m ≠ id := by
    rintro rfl
    exact Nat.not_lt.mpr (hsource.le_of_below hbelow) (hsource.lt hparent)
  rw [copied, copied]
  by_cases hmc : m = c
  case pos =>
    subst hmc
    cases hm : source.nodes[m]? with
    | none => rfl
    | some k =>
      have hk : k.parent = some id := by
        rw [Arena.parent?, hm] at hparent
        exact hparent
      rw [Option.map_some, Option.map_some, if_neg hne, if_pos rfl, hk, Option.map_some, hnumber]
  case neg => simp only [if_neg hne, if_neg hmc]

omit hsource in
-- The copies of some nodes are put behind all nodes that there are, and listed by one node.
theorem run_forM_copies {make : Nat → Step Nat} {ids : Nat → List Nat}
    {copies : Nat → List ArenaNode}
    (hmake : ∀ c ∈ cs, ∀ a : Arena, NumberedFrom number a.size (ids c) →
      (make c).run a = .ok a.size (a.extend (copies c)))
    (hfirst : ∀ c ∈ cs, (ids c).head? = some c)
    (hlength : ∀ c ∈ cs, (copies c).length = (ids c).length) (hp : p < a.size)
    (hnumber : NumberedFrom number a.size (cs.flatMap ids)) :
    (forM cs fun c => do
      let copy ← make c
      update p (·.addChild copy)).run a =
        .ok () ((a.modify p (·.addChildren (cs.map number))).extend (cs.flatMap copies)) := by
  induction cs generalizing a with
  | nil =>
    rw [List.map_nil, List.flatMap_nil, extend_nil, modify_addChildren_nil]
    rfl
  | cons c cs ih =>
    rw [List.flatMap_cons] at hnumber
    have hcopy := hmake c List.mem_cons_self a hnumber.left
    have hroot : number c = a.size := by
      refine hnumber.left 0 c ?_
      rw [← List.head?_eq_getElem?, hfirst c List.mem_cons_self]
    have hsize : p < (a.extend (copies c)).size := by
      rw [size_extend]
      omega
    have hlink : (update p (·.addChild a.size)).run (a.extend (copies c)) =
        .ok () ((a.link p a.size).extend (copies c)) := by
      rw [run_update hsize, modify_extend hp]
      rfl
    have hrest := ih (a := (a.link p a.size).extend (copies c))
      (fun c hc => hmake c (List.mem_cons_of_mem _ hc))
      (fun c hc => hfirst c (List.mem_cons_of_mem _ hc))
      (fun c hc => hlength c (List.mem_cons_of_mem _ hc)) (by rw [size_extend, size_link]; omega)
      (by rw [size_extend, size_link, hlength c List.mem_cons_self]; exact hnumber.right)
    rw [List.forM_cons, Step.run_bind_of_ok (by rw [Step.run_bind_of_ok hcopy, hlink]), hrest,
      modify_extend (by rwa [size_link]), modify_link, ← extend_append, List.map_cons, hroot,
      List.flatMap_cons]

theorem run_cloneInto (hid : id < source.size) (hdepth : source.size ≤ id + depth)
    (hnumber : NumberedFrom number a.size (source.preorderTo depth id)) :
    (cloneInto source depth parent id).run a =
      .ok a.size (a.extend (source.copiesTo number parent depth id)) := by
  induction depth generalizing id parent a with
  | zero => exact absurd hid (Nat.not_lt.mpr hdepth)
  | succ depth ih =>
    obtain ⟨n, hn⟩ := lt_size_iff.mp hid
    have hchildren : source.children id = n.children := by rw [children, hn]; rfl
    have hlt (c : Nat) (hc : c ∈ n.children) : c < source.size ∧ source.size ≤ c + depth := by
      rw [← hchildren] at hc
      have hrise := hsource.lt (hsource.parent? hc)
      exact ⟨hsource.lt_size hc, by omega⟩
    have hfirst (c : Nat) (hc : c ∈ n.children) : (source.preorderTo depth c).head? = some c := by
      have := hlt c hc
      obtain ⟨k, rfl⟩ : ∃ k, depth = k + 1 := ⟨depth - 1, by omega⟩
      rfl
    have hroot := hnumber.head
    rw [preorderTo, hchildren] at hnumber
    have horiginal : (MonadExcept.ofExcept (source.get id) : Step ArenaNode).run a = .ok n a := by
      rw [get_of_getElem? hn]
      rfl
    have halloc : (alloc { n with parent, children := [] }).run a =
        .ok a.size (a.push { n with parent, children := [] }) := rfl
    have hmake (c : Nat) (hc : c ∈ n.children) (d : Arena)
        (hd : NumberedFrom number d.size (source.preorderTo depth c)) :
        (cloneInto source depth (some a.size) c).run d =
          .ok d.size (d.extend (source.copiesTo number (some a.size) depth c)) :=
      ih (hlt c hc).left (hlt c hc).right hd
    have hbelow := run_forM_copies (a := a.push { n with parent, children := [] }) (p := a.size)
      hmake hfirst (fun c hc => length_copiesTo hsource (hlt c hc).left) (by simp)
      (by rw [size_push]; exact hnumber.tail)
    rw [cloneInto, Step.run_bind_of_ok horiginal, Step.run_bind_of_ok halloc,
      Step.run_bind_of_ok hbelow, modify_push, copiesTo_succ hsource hn hroot, extend_cons]
    rfl

end Run

section Clone

-- The number of the copy of a node, if the copy of the root gets some number.
def copyNumber (source : Arena) (root start id : Nat) : Nat :=
  start + (source.descendants root).idxOf id

-- The copies of a tree, numbered from some number on.
def copies (source : Arena) (root start : Nat) : List ArenaNode :=
  (source.descendants root).filterMap
    (source.copied (source.copyNumber root start) none root)

variable {root start : Nat} (hsource : source.Linked [])
include hsource

theorem numberedFrom_copyNumber (root start : Nat) :
    NumberedFrom (source.copyNumber root start) start (source.descendants root) := by
  intro k id hk
  obtain ⟨hlt, rfl⟩ := List.getElem?_eq_some_iff.mp hk
  rw [copyNumber, (hsource.nodup_descendants root).idxOf_getElem]

-- A clone is put behind all nodes that there are.
theorem run_clone (hroot : root < source.size) (a : Arena) :
    (clone source root).run a = .ok a.size (a.extend (source.copies root a.size)) := by
  have hdescendants := hsource.descendants_eq_preorderTo hroot (Nat.le_add_left _ _)
  have hnumber := numberedFrom_copyNumber hsource root a.size
  rw [hdescendants] at hnumber
  rw [clone, run_cloneInto hsource hroot (Nat.le_add_left _ _) hnumber, copiesTo, copies,
    hdescendants]

theorem map_some_copies (root start : Nat) : (source.copies root start).map some =
    (source.descendants root).map (source.copied (source.copyNumber root start) none root) :=
  map_some_copied fun _ hm => (hsource.mem_descendants.mp hm).left

theorem length_copies (root start : Nat) :
    (source.copies root start).length = (source.descendants root).length := by
  have hlength := congrArg List.length (map_some_copies hsource root start)
  rwa [List.length_map, List.length_map] at hlength

theorem mem_descendants_of_mem_children {c : Nat} (hid : id ∈ source.descendants root)
    (hc : c ∈ source.children id) : c ∈ source.descendants root := by
  have hbelow := (hsource.mem_descendants.mp hid).right
  exact hsource.mem_descendants.mpr ⟨hsource.lt_size hc, hbelow.head (hsource.parent? hc)⟩

-- Each node of the tree has the copy that its number says.
theorem getElem?_copyNumber (a : Arena) (hid : id ∈ source.descendants root) :
    (a.extend (source.copies root a.size)).nodes[source.copyNumber root a.size id]? =
      source.copied (source.copyNumber root a.size) none root id := by
  have hplace : (source.descendants root)[(source.descendants root).idxOf id]? = some id :=
    List.getElem?_idxOf hid
  have hall := congrArg (·[(source.descendants root).idxOf id]?)
    (map_some_copies hsource root a.size)
  simp only [List.getElem?_map, hplace, Option.map_some] at hall
  obtain ⟨n, hn, hcopy⟩ := Option.map_eq_some_iff.mp hall
  rw [copyNumber, getElem?_extend_add, hn, hcopy]

-- A walk along the copy meets the copies of what a walk along the tree meets.
theorem walk_copies (a : Arena) {stack : List Nat} (hstack : stack ⊆ source.descendants root)
    (steps : Nat) : (a.extend (source.copies root a.size)).walk steps
        (stack.map (source.copyNumber root a.size)) =
      (source.walk steps stack).map (List.map (source.copyNumber root a.size)) := by
  induction steps generalizing stack with
  | zero =>
    cases stack with
    | nil => rfl
    | cons id stack => rfl
  | succ steps ih =>
    cases stack with
    | nil => rfl
    | cons id stack =>
      obtain ⟨hid, hrest⟩ := List.cons_subset.mp hstack
      obtain ⟨n, hn⟩ := lt_size_iff.mp (hsource.mem_descendants.mp hid).left
      have hchildren : source.children id = n.children := by rw [children, hn]; rfl
      have hsub : n.children ++ stack ⊆ source.descendants root := by
        refine List.append_subset.mpr ⟨fun c hc => ?_, hrest⟩
        exact mem_descendants_of_mem_children hsource hid (hchildren ▸ hc)
      have hcopy := getElem?_copyNumber hsource a hid
      rw [copied, hn, Option.map_some] at hcopy
      rw [List.map_cons, walk, walk, hcopy, hn]
      simp only
      rw [← List.map_append, ih hsub, Option.map_map, Option.map_map]
      rfl

theorem copyNumber_root (hroot : root < source.size) (start : Nat) :
    source.copyNumber root start root = start := by
  refine numberedFrom_copyNumber hsource root start 0 root ?_
  rw [hsource.descendants_eq hroot]
  rfl

theorem descendants_subset (hid : id ∈ source.descendants root) :
    source.descendants id ⊆ source.descendants root := by
  intro m hm
  obtain ⟨hlt, hbelow⟩ := hsource.mem_descendants.mp hm
  exact hsource.mem_descendants.mpr ⟨hlt, hbelow.trans (hsource.mem_descendants.mp hid).right⟩

theorem walk_of_length_le (hid : id < source.size) {steps : Nat}
    (hsteps : (source.descendants id).length ≤ steps) :
    source.walk steps [id] = some (source.descendants id) := by
  rw [hsource.descendants_eq_preorderTo hid (Nat.le_add_left _ _)] at hsteps ⊢
  have hwalk := hsource.walk_cons hid (Nat.le_add_left _ _)
    (steps - (source.preorderTo source.size id).length) []
  rw [Nat.sub_add_cancel hsteps] at hwalk
  rw [hwalk]
  simp [walk]

-- What hangs below a copy are the copies of what hangs below its original, in the same order.
theorem descendants_copyNumber (a : Arena) (hid : id ∈ source.descendants root) :
    (a.extend (source.copies root a.size)).descendants (source.copyNumber root a.size id) =
      (source.descendants id).map (source.copyNumber root a.size) := by
  have hsub := descendants_subset hsource hid
  have hle := ((hsource.nodup_descendants id).subperm hsub).length_le
  have hsteps : (source.descendants id).length ≤
      (a.extend (source.copies root a.size)).size + 1 := by
    rw [size_extend, length_copies hsource]
    omega
  have hwalk := walk_copies hsource a (List.cons_subset.mpr ⟨hid, List.nil_subset _⟩)
    ((a.extend (source.copies root a.size)).size + 1)
  rw [walk_of_length_le hsource (hsource.mem_descendants.mp hid).left hsteps] at hwalk
  rw [descendants]
  exact congrArg (·.getD []) hwalk

theorem isToken_copyNumber (a : Arena) (hid : id ∈ source.descendants root) :
    (a.extend (source.copies root a.size)).isToken (source.copyNumber root a.size id) =
      source.isToken id := by
  rw [isToken, getElem?_copyNumber hsource a hid, copied, Option.map_map, isToken]
  rfl

theorem entryAt?_copyNumber (a : Arena) (hid : id ∈ source.descendants root) :
    (a.extend (source.copies root a.size)).entryAt? (source.copyNumber root a.size id) =
      source.entryAt? id := by
  rw [entryAt?, getElem?_copyNumber hsource a hid, copied, Option.map_map, entryAt?]
  rfl

-- A copy says what its original says.
theorem tokens_copyNumber (a : Arena) (hid : id ∈ source.descendants root) :
    (a.extend (source.copies root a.size)).tokens (source.copyNumber root a.size id) =
      source.tokens id := by
  have hsub := descendants_subset hsource hid
  have hleaves : (a.extend (source.copies root a.size)).leaves
      (source.copyNumber root a.size id) =
        (source.leaves id).map (source.copyNumber root a.size) := by
    rw [leaves, descendants_copyNumber hsource a hid, List.filter_map, leaves]
    exact congrArg _ (List.filter_congr fun m hm => isToken_copyNumber hsource a (hsub hm))
  rw [tokens, hleaves, entriesAt, List.filterMap_map, tokens, entriesAt]
  refine List.filterMap_congr fun m hm => ?_
  exact entryAt?_copyNumber hsource a (hsub (List.mem_of_mem_filter hm))

theorem tokens_clone (hroot : root < source.size) (a : Arena) :
    (a.extend (source.copies root a.size)).tokens a.size = source.tokens root := by
  have htokens := tokens_copyNumber hsource a
    (hsource.mem_descendants.mpr ⟨hroot, .refl⟩ : root ∈ source.descendants root)
  rwa [copyNumber_root hsource hroot] at htokens

end Clone

end Arena

end ClassSplit.Java
