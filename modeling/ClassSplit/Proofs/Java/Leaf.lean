import ClassSplit.Proofs.Java.Lowering
import ClassSplit.Proofs.Java.Site

/-!
The tokens and comments of a sound tree. They follow each other in the text, from the start of the
tree to its end, and no two of them have the same span, so that lowering the tree loses nothing.
-/

namespace ClassSplit.Java.Site

variable {text : List Char} {s t u c : Site}

-- The tokens and comments of a tree, in order.
def leaves (s : Site) : List Site := s.preorder.filter (·.node.children.isEmpty)

theorem mem_leaves : t ∈ s.leaves ↔ t ∈ s.preorder ∧ t.node.children = [] := by
  rw [leaves, List.mem_filter, List.isEmpty_iff]

theorem map_node_preorder (s : Site) : s.preorder.map (·.node) = s.node.preorder := by
  induction s using below_induction with
  | step s ih =>
    have hchildren : (s.children.flatMap preorder).map (·.node) =
        s.node.children.flatMap Node.preorder := by
      rw [List.map_flatMap, List.flatMap_congr ih, children, List.flatMap_map]
      rfl
    rw [preorder_eq, List.map_cons, hchildren]
    cases s.node with
    | leaf => rfl
    | branch => rw [Node.preorder, Node.preorderAll_eq_flatMap, Node.children]

theorem map_node_leaves (s : Site) : s.leaves.map (·.node) = s.node.tokens := by
  rw [Node.tokens, ← map_node_preorder, List.filter_map]
  rfl

theorem leaves_of_children_eq_nil (h : s.node.children = []) : s.leaves = [s] := by
  rw [leaves, preorder_eq, children, h, List.map_nil, List.flatMap_nil,
    List.filter_cons_of_pos (by rw [h]; rfl), List.filter_nil]

theorem leaves_of_children_ne_nil (h : s.node.children ≠ []) :
    s.leaves = s.children.flatMap leaves := by
  rw [leaves, preorder_eq, List.filter_cons_of_neg (by simpa using h), List.filter_flatMap]
  rfl

-- The leaves of neighbours, of which each begins and ends with its own.
theorem inOrder_flatMap_leaves {lo hi : Nat} {cs : List Site}
    (h : Span.InOrder lo hi (cs.map (·.span)))
    (hcs : ∀ c ∈ cs, Span.InOrder c.span.start c.span.stop (c.leaves.map (·.span))) :
    Span.InOrder lo hi ((cs.flatMap leaves).map (·.span)) := by
  induction cs generalizing lo with
  | nil => exact h
  | cons c cs ih =>
    rw [List.flatMap_cons, List.map_append]
    exact ((hcs c List.mem_cons_self).mono h.left).append
      (ih h.right.right fun c hc => hcs c (List.mem_cons_of_mem _ hc))

theorem inOrder_leaves (h : s.node.Sound text) :
    Span.InOrder s.span.start s.span.stop (s.leaves.map (·.span)) := by
  induction s using below_induction with
  | step s ih =>
    by_cases hne : s.node.children = []
    case pos =>
      rw [leaves_of_children_eq_nil hne]
      exact ⟨Nat.le_refl _, h.nonempty, Nat.le_refl _⟩
    case neg =>
      rw [leaves_of_children_ne_nil hne]
      refine inOrder_flatMap_leaves ?_ fun c hc => ?_
      · rw [children, List.map_map]
        exact h.inOrder hne
      · obtain ⟨n, hn, rfl⟩ := mem_children.mp hc
        exact ih _ hc (h.of_mem_children hn)

theorem exists_head?_leaves (h : s.node.Sound text) :
    ∃ t, s.leaves.head? = some t ∧ t.span.start = s.span.start := by
  induction s using below_induction with
  | step s ih =>
    cases hchildren : s.node.children with
    | nil => exact ⟨s, by rw [leaves_of_children_eq_nil hchildren]; rfl, rfl⟩
    | cons n ns =>
      have hn : n ∈ s.node.children := by rw [hchildren]; exact List.mem_cons_self
      obtain ⟨t, ht, hstart⟩ :=
        ih (s.below n) (mem_children.mpr ⟨n, hn, rfl⟩) (h.of_mem_children hn)
      have hfirst : n.span.start = s.span.start := h.start_of_head? (by rw [hchildren]; rfl)
      refine ⟨t, ?_, hstart.trans hfirst⟩
      rw [leaves_of_children_ne_nil (by simp [hchildren]), children, hchildren, List.map_cons,
        List.flatMap_cons, List.head?_append, ht, Option.some_or]

theorem exists_getLast?_leaves (h : s.node.Sound text) :
    ∃ t, s.leaves.getLast? = some t ∧ t.span.stop = s.span.stop := by
  induction s using below_induction with
  | step s ih =>
    by_cases hne : s.node.children = []
    case pos => exact ⟨s, by rw [leaves_of_children_eq_nil hne]; rfl, rfl⟩
    case neg =>
      obtain ⟨front, n, hsplit⟩ := (List.eq_nil_or_concat' s.node.children).resolve_left hne
      have hn : n ∈ s.node.children := by rw [hsplit]; simp
      obtain ⟨t, ht, hstop⟩ :=
        ih (s.below n) (mem_children.mpr ⟨n, hn, rfl⟩) (h.of_mem_children hn)
      have hlast : n.span.stop = s.span.stop := h.stop_of_getLast? (by rw [hsplit]; simp)
      refine ⟨t, ?_, hstop.trans hlast⟩
      rw [leaves_of_children_ne_nil hne, children, hsplit, List.map_append, List.flatMap_append,
        List.map_singleton, List.flatMap_cons, List.flatMap_nil, List.append_nil,
        List.getLast?_append, ht, Option.some_or]

theorem eq_of_span_eq_of_leaves (h : s.node.Sound text) (ht : t ∈ s.leaves) (hu : u ∈ s.leaves)
    (hspan : t.span = u.span) : t = u := by
  obtain heq | hbeside := (inOrder_leaves h).eq_or_beside ht hu
  · exact heq
  · have hsound := sound_of_mem_preorder h (mem_leaves.mp ht).left
    exact absurd hspan (hbeside.ne hsound.nonempty)

theorem toList_word (h : s.node.Sound text) (hs : s.node.children = []) :
    s.node.word.toList = Text.slice text s.span := by
  obtain ⟨n, above⟩ := s
  cases h with
  | leaf spelled => exact spelled.slice.symm
  | branch _ _ first =>
    rw [Node.children] at hs
    rw [hs] at first
    cases first

-- A tree that was parsed is over its text.
theorem over_of_sound (h : s.node.Sound text) : s.node.Over text := by
  have hnode {m : Node} (hm : m ∈ s.node.preorder) : ∃ u : Site, u.node = m ∧ m.Sound text := by
    rw [← map_node_preorder] at hm
    obtain ⟨u, hu, rfl⟩ := List.mem_map.mp hm
    exact ⟨u, rfl, sound_of_mem_preorder h hu⟩
  refine ⟨fun t ht => ?_, ?_, fun m hm => ?_, fun m hm => ?_⟩
  · obtain ⟨hmem, hleaf⟩ := List.mem_filter.mp ht
    obtain ⟨u, rfl, hsound⟩ := hnode hmem
    exact ⟨hsound.fits, toList_word hsound (List.isEmpty_iff.mp hleaf)⟩
  · have hpairwise := (inOrder_leaves h).pairwise
    rw [List.pairwise_map] at hpairwise
    rw [← map_node_leaves, List.pairwise_map]
    exact hpairwise
  · obtain ⟨u, rfl, hsound⟩ := hnode hm
    obtain ⟨t, ht, hstart⟩ := exists_head?_leaves hsound
    rw [← map_node_leaves, List.head?_map, ht]
    exact congrArg some hstart
  · obtain ⟨u, rfl, hsound⟩ := hnode hm
    obtain ⟨t, ht, hstop⟩ := exists_getLast?_leaves hsound
    rw [← map_node_leaves, List.getLast?_map, ht]
    exact congrArg some hstop

end ClassSplit.Java.Site
