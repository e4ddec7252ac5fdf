import ClassSplit.Proofs.Java.Forest

/-!
What the nodes of an arena say, and arenas that grow. A copy of a tree is put behind all nodes that
there are, so that an arena with a copy in it is the arena with some more nodes. Main statements:
`Arena.getElem?_extend`, `Arena.render_eq`.
-/

namespace ClassSplit.Java

-- What a node says, whatever it hangs off.
structure Entry where
  kind : Kind
  origin : Span
  gap : String
  text : Option String

def ArenaNode.entry (n : ArenaNode) : Entry := ⟨n.kind, n.origin, n.gap, n.text⟩

namespace Arena

variable {a b : Arena} {id p : Nat} {n : ArenaNode} {ns ms : List ArenaNode}
  {f : ArenaNode → ArenaNode} {ids ids' : List Nat}

section Entries

def entryAt? (a : Arena) (id : Nat) : Option Entry := a.nodes[id]?.map ArenaNode.entry

-- What some nodes say.
def entriesAt (a : Arena) (ids : List Nat) : List Entry := ids.filterMap a.entryAt?

-- What the tokens of a tree say.
def tokens (a : Arena) (root : Nat) : List Entry := a.entriesAt (a.leaves root)

theorem entryAt?_modify (h : ∀ n ∈ a.nodes[id]?, (f n).entry = n.entry) (i : Nat) :
    (a.modify id f).entryAt? i = a.entryAt? i := map_getElem?_modify ArenaNode.entry h i

theorem entriesAt_congr (h : ∀ i ∈ ids, b.entryAt? i = a.entryAt? i) :
    b.entriesAt ids = a.entriesAt ids := List.filterMap_congr h

theorem entriesAt_append (a : Arena) (ids ids' : List Nat) :
    a.entriesAt (ids ++ ids') = a.entriesAt ids ++ a.entriesAt ids' := List.filterMap_append

theorem entriesAt_cons {e : Entry} (h : a.entryAt? id = some e) (ids : List Nat) :
    a.entriesAt (id :: ids) = e :: a.entriesAt ids := List.filterMap_cons_some h

end Entries

section Rendering

theorem lt_size_of_isToken (h : a.isToken id = true) : id < a.size := by
  cases hn : a.nodes[id]? with
  | some n => exact lt_size_iff.mpr ⟨n, hn⟩
  | none =>
    rw [isToken, hn] at h
    cases h

theorem renderTokens_congr (h : ms.map (·.entry) = ns.map (·.entry)) :
    renderTokens ms = renderTokens ns := by
  have hall (ts : List ArenaNode) : ts.map (fun t => t.gap ++ t.text.getD "") =
      (ts.map (·.entry)).map fun t => t.gap ++ t.text.getD "" := by
    rw [List.map_map]
    rfl
  cases ms with
  | nil =>
    rw [List.map_nil, eq_comm, List.map_eq_nil_iff] at h
    rw [h]
  | cons m ms =>
    cases ns with
    | nil => cases h
    | cons n ns =>
      obtain ⟨hfirst, hrest⟩ := List.cons.inj h
      have htext : m.text = n.text := congrArg Entry.text hfirst
      rw [renderTokens, renderTokens, htext, hall ms, hall ns, hrest]

-- Whatever the links are, only tokens are written out.
theorem render_eq (a : Arena) (root : Nat) :
    a.render root = .ok (renderTokens ((a.leaves root).filterMap (a.nodes[·]?))) := by
  have hget (ids : List Nat) (hids : ∀ id ∈ ids, id < a.size) :
      ids.mapM a.get = .ok (ids.filterMap (a.nodes[·]?)) := by
    induction ids with
    | nil => rfl
    | cons id ids ih =>
      obtain ⟨n, hn⟩ := lt_size_iff.mp (hids id List.mem_cons_self)
      rw [List.mapM_cons, get_of_getElem? hn, ih fun id hid => hids id (List.mem_cons_of_mem _ hid),
        List.filterMap_cons_some hn]
      rfl
  rw [render, hget]
  · rfl
  · exact fun id hid => lt_size_of_isToken (List.mem_filter.mp hid).right

theorem map_entry_filterMap (a : Arena) (ids : List Nat) :
    (ids.filterMap (a.nodes[·]?)).map (·.entry) = a.entriesAt ids := by
  rw [List.map_filterMap]
  rfl

-- What is written out of a tree is what its tokens say.
theorem render_congr {root root' : Nat} (h : b.tokens root' = a.tokens root) :
    b.render root' = a.render root := by
  rw [render_eq, render_eq, renderTokens_congr]
  rw [map_entry_filterMap, map_entry_filterMap]
  exact h

end Rendering

section Extend

-- The arena with some more nodes.
def extend (a : Arena) (ns : List ArenaNode) : Arena := ⟨a.nodes ++ ns.toArray⟩

theorem ext_getElem? (h : ∀ i : Nat, b.nodes[i]? = a.nodes[i]?) : b = a := by
  obtain ⟨nodes⟩ := b
  exact congrArg Arena.mk (Array.ext_getElem? h)

theorem getElem?_extend (a : Arena) (ns : List ArenaNode) (i : Nat) :
    (a.extend ns).nodes[i]? = if i < a.size then a.nodes[i]? else ns[i - a.size]? := by
  have hnew (j : Nat) : ns.toArray[j]? = ns[j]? := List.getElem?_toArray
  rw [extend, Array.getElem?_append, hnew]
  rfl

theorem getElem?_extend_add (a : Arena) (ns : List ArenaNode) (k : Nat) :
    (a.extend ns).nodes[a.size + k]? = ns[k]? := by
  rw [getElem?_extend, if_neg (Nat.not_lt.mpr (Nat.le_add_right _ _)), Nat.add_sub_cancel_left]

@[simp]
theorem size_extend (a : Arena) (ns : List ArenaNode) :
    (a.extend ns).size = a.size + ns.length := by
  simp [extend, size]

@[simp]
theorem extend_nil (a : Arena) : a.extend [] = a := by
  rw [extend, Array.append_empty]

theorem extend_cons (a : Arena) (n : ArenaNode) (ns : List ArenaNode) :
    a.extend (n :: ns) = (a.push n).extend ns := by
  exact congrArg Arena.mk (Array.toList_inj.mp (by simp [push]))

theorem extend_append (a : Arena) (ns ms : List ArenaNode) :
    a.extend (ns ++ ms) = (a.extend ns).extend ms := by
  simp [extend]

theorem modify_push (a : Arena) (n : ArenaNode) (f : ArenaNode → ArenaNode) :
    (a.push n).modify a.size f = a.push (f n) := by
  refine ext_getElem? fun i => ?_
  rw [modify, Array.getElem?_modify, getElem?_push, getElem?_push]
  by_cases hi : i = a.size
  case pos => simp [hi]
  case neg => simp [hi, Ne.symm hi]

theorem modify_extend (h : p < a.size) (ns : List ArenaNode) (f : ArenaNode → ArenaNode) :
    (a.extend ns).modify p f = (a.modify p f).extend ns := by
  refine ext_getElem? fun i => ?_
  rw [modify, Array.getElem?_modify, getElem?_extend, getElem?_extend, size_modify, modify,
    Array.getElem?_modify]
  by_cases hi : p = i
  case pos =>
    subst hi
    simp [h]
  case neg => simp [hi]

theorem modify_modify (a : Arena) (p : Nat) (f g : ArenaNode → ArenaNode) :
    (a.modify p f).modify p g = a.modify p (g ∘ f) := by
  refine ext_getElem? fun i => ?_
  rw [modify, modify, modify, Array.getElem?_modify, Array.getElem?_modify, Array.getElem?_modify]
  by_cases hi : p = i
  case pos =>
    rw [if_pos hi, if_pos hi, if_pos hi, Option.map_map]
  case neg => rw [if_neg hi, if_neg hi, if_neg hi]

end Extend

end Arena

-- A node that lists some more children.
def ArenaNode.addChildren (n : ArenaNode) (cs : List Nat) : ArenaNode :=
  { n with children := n.children ++ cs }

@[simp]
theorem ArenaNode.addChildren_nil (n : ArenaNode) : n.addChildren [] = n := by
  rw [addChildren, List.append_nil]

theorem ArenaNode.addChildren_addChild (n : ArenaNode) (c : Nat) (cs : List Nat) :
    (n.addChild c).addChildren cs = n.addChildren (c :: cs) := by
  rw [addChild, addChildren, addChildren, List.append_assoc, List.singleton_append]

theorem Arena.modify_addChildren_nil (a : Arena) (p : Nat) :
    a.modify p (·.addChildren []) = a := by
  have hkept : ∀ n ∈ a.nodes[p]?, n.addChildren [] = n := fun n _ => n.addChildren_nil
  refine ext_getElem? fun i => ?_
  have hsame := map_getElem?_modify (fun n => n) hkept i
  rwa [Option.map_id_fun'] at hsame

theorem Arena.modify_link {a : Arena} (p c : Nat) (cs : List Nat) :
    (a.link p c).modify p (·.addChildren cs) = a.modify p (·.addChildren (c :: cs)) := by
  rw [link, modify_modify]
  exact congrArg (a.modify p) (funext fun n => n.addChildren_addChild c cs)

end ClassSplit.Java
