import ClassSplit.Proofs.Java.Tree
import Mathlib.Data.List.Nodup

/-!
The sites of a sound tree. Of two sites one lies below the other or they stand beside each other,
and the expressions that are read or changed have no other such expression at the same span.
-/

namespace ClassSplit.Java

variable {text : List Char} {s t u c : Site}

-- The kinds of the expressions that refer to a variable or change one.
@[reducible] def Kind.isSubject : Kind → Bool
  | .identifier | .fieldAccess | .assignmentExpression | .updateExpression => true
  | _ => false

theorem Kind.isOperand_of_isSubject {kind : Kind} (h : kind.isSubject = true) :
    kind.isOperand = true := by
  cases kind
  all_goals first | rfl | cases h

namespace Site

theorem sitesAll_eq_flatMap (above ns : List Node) :
    Node.sitesAll above ns = ns.flatMap (Node.sites above) := by
  induction ns with
  | nil => rfl
  | cons n ns ih => rw [Node.sitesAll, ih, List.flatMap_cons]

theorem preorder_eq (s : Site) : s.preorder = s :: s.children.flatMap preorder := by
  obtain ⟨n, above⟩ := s
  cases n with
  | leaf => rfl
  | branch kind role span children =>
    rw [preorder, Node.sites, sitesAll_eq_flatMap, Site.children, List.flatMap_map]
    rfl

theorem mem_preorder : t ∈ s.preorder ↔ t = s ∨ ∃ c ∈ s.children, t ∈ c.preorder := by
  rw [preorder_eq, List.mem_cons, List.mem_flatMap]

theorem self_mem_preorder (s : Site) : s ∈ s.preorder := mem_preorder.mpr (.inl rfl)

theorem mem_children : c ∈ s.children ↔ ∃ n ∈ s.node.children, c = s.below n := by
  rw [children, List.mem_map]
  constructor
  case mp =>
    rintro ⟨n, hn, rfl⟩
    exact ⟨n, hn, rfl⟩
  case mpr =>
    rintro ⟨n, hn, rfl⟩
    exact ⟨n, hn, rfl⟩

theorem mem_children_of_child? {role : Role} (h : s.child? role = some c) : c ∈ s.children := by
  obtain ⟨n, hn, rfl⟩ := Option.map_eq_some_iff.mp h
  exact mem_children.mpr ⟨n, List.mem_of_find?_eq_some hn, rfl⟩

theorem mem_children_of_namedChildren (h : c ∈ s.namedChildren) : c ∈ s.children := by
  obtain ⟨n, hn, rfl⟩ := List.mem_map.mp h
  exact mem_children.mpr ⟨n, (List.mem_filter.mp hn).left, rfl⟩

theorem mem_preorder_of_mem_children (h : c ∈ s.children) : c ∈ s.preorder :=
  mem_preorder.mpr (.inr ⟨c, h, self_mem_preorder c⟩)

-- What holds of a site if it holds of all its children holds of every site.
@[elab_as_elim] theorem below_induction {motive : Site → Prop} (s : Site)
    (step : ∀ s, (∀ c ∈ s.children, motive c) → motive s) : motive s := by
  obtain ⟨n, above⟩ := s
  refine step _ ?_
  intro c hc
  obtain ⟨m, hm, rfl⟩ := mem_children.mp hc
  exact below_induction _ step
termination_by sizeOf s.node
decreasing_by exact Node.sizeOf_lt_of_mem_children hm

theorem mem_preorder_trans (ht : t ∈ s.preorder) (hu : u ∈ t.preorder) : u ∈ s.preorder := by
  induction s using below_induction with
  | step s ih =>
    cases mem_preorder.mp ht with
    | inl heq => exact heq ▸ hu
    | inr hbelow =>
      obtain ⟨c, hc, htc⟩ := hbelow
      exact mem_preorder.mpr (.inr ⟨c, hc, ih c hc htc⟩)

theorem length_above_le (ht : t ∈ s.preorder) : s.above.length ≤ t.above.length := by
  induction s using below_induction with
  | step s ih =>
    cases mem_preorder.mp ht with
    | inl heq => exact heq ▸ Nat.le_refl _
    | inr hbelow =>
      obtain ⟨c, hc, htc⟩ := hbelow
      have hle := ih c hc htc
      obtain ⟨n, -, rfl⟩ := mem_children.mp hc
      simp only [below, List.length_cons] at hle
      omega

theorem not_mem_preorder_of_mem_children (hc : c ∈ s.children) : s ∉ c.preorder := by
  intro hmem
  have hle := length_above_le hmem
  obtain ⟨n, -, rfl⟩ := mem_children.mp hc
  simp only [below, List.length_cons] at hle
  omega

-- Two sites are not both below the other.
theorem preorder_antisymm (ht : t ∈ s.preorder) (hs : s ∈ t.preorder) : t = s := by
  obtain rfl | ⟨c, hc, htc⟩ := mem_preorder.mp ht
  · rfl
  · exact absurd (mem_preorder_trans htc hs) (not_mem_preorder_of_mem_children hc)

theorem sound_of_mem_preorder (h : s.node.Sound text) (ht : t ∈ s.preorder) :
    t.node.Sound text := by
  induction s using below_induction with
  | step s ih =>
    cases mem_preorder.mp ht with
    | inl heq => exact heq ▸ h
    | inr hbelow =>
      obtain ⟨c, hc, htc⟩ := hbelow
      obtain ⟨n, hn, rfl⟩ := mem_children.mp hc
      exact ih _ hc (h.of_mem_children hn) htc

end Site

theorem Node.Sound.covers_child {n m : Node} (h : n.Sound text) (hm : m ∈ n.children) :
    n.span.covers m.span = true := by
  have hmem := (h.inOrder (List.ne_nil_of_mem hm)).mem (List.mem_map_of_mem hm)
  exact Span.covers_iff.mpr ⟨hmem.left, hmem.right.right⟩

theorem Node.Sound.eq_or_beside {n m k : Node} (h : n.Sound text) (hm : m ∈ n.children)
    (hk : k ∈ n.children) : m = k ∨ m.span.Beside k.span :=
  (h.inOrder (List.ne_nil_of_mem hm)).eq_or_beside hm hk

namespace Site

theorem covers_of_mem_preorder (h : s.node.Sound text) (ht : t ∈ s.preorder) :
    s.span.covers t.span = true := by
  induction s using below_induction with
  | step s ih =>
    cases mem_preorder.mp ht with
    | inl heq => exact heq ▸ Span.covers_refl _
    | inr hbelow =>
      obtain ⟨c, hc, htc⟩ := hbelow
      obtain ⟨n, hn, rfl⟩ := mem_children.mp hc
      exact Span.covers_trans (h.covers_child hn) (ih _ hc (h.of_mem_children hn) htc)

-- Two sites: one is below the other, or they stand beside each other.
theorem below_or_beside (h : s.node.Sound text) (ht : t ∈ s.preorder) (hu : u ∈ s.preorder) :
    t ∈ u.preorder ∨ u ∈ t.preorder ∨ t.span.Beside u.span := by
  induction s using below_induction with
  | step s ih =>
    obtain rfl | ⟨c, hc, htc⟩ := mem_preorder.mp ht
    · exact .inr (.inl hu)
    obtain rfl | ⟨d, hd, hud⟩ := mem_preorder.mp hu
    · exact .inl ht
    obtain ⟨n, hn, rfl⟩ := mem_children.mp hc
    obtain ⟨m, hm, rfl⟩ := mem_children.mp hd
    have hsoundN := h.of_mem_children hn
    cases h.eq_or_beside hn hm with
    | inl heq =>
      subst heq
      exact ih _ hc hsoundN htc hud
    | inr hbeside =>
      exact .inr (.inr (hbeside.mono (covers_of_mem_preorder hsoundN htc)
        (covers_of_mem_preorder (h.of_mem_children hm) hud)))

theorem nested (h : s.node.Sound text) (ht : t ∈ s.preorder) (hu : u ∈ s.preorder) :
    t.span.Nested u.span := by
  obtain hbelow | hbelow | hbeside := below_or_beside h ht hu
  · exact .inr (.inr (covers_of_mem_preorder (sound_of_mem_preorder h hu) hbelow))
  · exact .inr (.inl (covers_of_mem_preorder (sound_of_mem_preorder h ht) hbelow))
  · exact .inl hbeside

-- Some child of an expression that refers to a variable or changes one is a mark.
theorem exists_mark (h : s.node.Sound text) (hkind : s.kind.isSubject = true)
    (hne : s.node.children ≠ []) : ∃ n ∈ s.node.children, n.isMark = true := by
  have hshape := h.shape hne
  unfold kind at hkind
  cases hs : s.node.kind
  all_goals rw [hs] at hkind hshape
  case updateExpression =>
    obtain ⟨isIncrement, isFront, hsigned⟩ := hshape
    obtain ⟨n, hn, hmark, -⟩ := hsigned.exists_mem
    exact ⟨n, hn, hmark⟩
  all_goals first | exact hshape | exact hshape.left | exact hshape.elim | cases hkind

theorem children_of_isMark {n : Node} (h : n.isMark = true) : n.children = [] := by
  cases n with
  | leaf => rfl
  | branch => cases h

theorem isMark_eq_false_of_isSubject {n : Node} (h : n.kind.isSubject = true) :
    n.isMark = false := by
  cases n with
  | leaf kind => cases kind <;> first | rfl | cases h
  | branch => rfl

-- A construct with a mark spans more than each of its children.
theorem eq_of_span_eq_of_isMark {m : Node} (h : s.node.Sound text) (ht : t ∈ s.preorder)
    (hspan : t.span = s.span) (hm : m ∈ s.node.children) (hmark : m.isMark = true)
    (htmark : t.node.isMark = false) : t = s := by
  obtain rfl | ⟨c, hc, htc⟩ := mem_preorder.mp ht
  · rfl
  obtain ⟨n, hn, rfl⟩ := mem_children.mp hc
  have hcovers := covers_of_mem_preorder (h.of_mem_children hn) htc
  cases h.eq_or_beside hm hn with
  | inl heq =>
    subst heq
    obtain rfl | ⟨d, hd, -⟩ := mem_preorder.mp htc
    · rw [show (s.below m).node = m from rfl, hmark] at htmark
      cases htmark
    · obtain ⟨k, hk, -⟩ := mem_children.mp hd
      rw [show (s.below m).node = m from rfl, children_of_isMark hmark] at hk
      cases hk
  | inr hbeside =>
    have hself := hbeside.mono (Span.covers_refl _) (Span.covers_trans hcovers
      (hspan ▸ h.covers_child hm : t.span.covers m.span = true))
    exact absurd rfl (hself.ne (h.of_mem_children hm).nonempty)

theorem eq_of_span_eq_of_mem (h : s.node.Sound text) (ht : t ∈ s.preorder)
    (hspan : t.span = s.span) (hs : s.kind.isSubject = true) (htk : t.kind.isSubject = true) :
    t = s := by
  by_cases hne : s.node.children = []
  case pos =>
    obtain rfl | ⟨c, hc, -⟩ := mem_preorder.mp ht
    · rfl
    · obtain ⟨n, hn, -⟩ := mem_children.mp hc
      rw [hne] at hn
      cases hn
  case neg =>
    obtain ⟨m, hm, hmark⟩ := exists_mark h hs hne
    exact eq_of_span_eq_of_isMark h ht hspan hm hmark (isMark_eq_false_of_isSubject htk)

theorem eq_of_span_eq (h : s.node.Sound text) (ht : t ∈ s.preorder) (hu : u ∈ s.preorder)
    (hspan : t.span = u.span) (htk : t.kind.isSubject = true) (huk : u.kind.isSubject = true) :
    t = u := by
  have hsoundT := sound_of_mem_preorder h ht
  obtain hbelow | hbelow | hbeside := below_or_beside h ht hu
  · exact eq_of_span_eq_of_mem (sound_of_mem_preorder h hu) hbelow hspan huk htk
  · exact (eq_of_span_eq_of_mem hsoundT hbelow hspan.symm htk huk).symm
  · exact absurd hspan (hbeside.ne hsoundT.nonempty)

-- No site occurs twice.
theorem nodup_preorder (h : s.node.Sound text) : s.preorder.Nodup := by
  induction s using below_induction with
  | step s ih =>
    rw [preorder_eq, List.nodup_cons, List.nodup_flatMap]
    refine ⟨?_, ?_, ?_⟩
    · intro hmem
      obtain ⟨c, hc, hsc⟩ := List.mem_flatMap.mp hmem
      exact not_mem_preorder_of_mem_children hc hsc
    · intro c hc
      obtain ⟨n, hn, rfl⟩ := mem_children.mp hc
      exact ih _ hc (h.of_mem_children hn)
    · by_cases hne : s.node.children = []
      case pos => simp [children, hne]
      case neg =>
        have horder := List.pairwise_map.mp (h.inOrder hne).pairwise
        refine List.pairwise_map.mpr (horder.imp_of_mem ?_)
        intro n m hn hm hle
        refine List.disjoint_left.mpr ?_
        intro t htn htm
        have hcn := covers_of_mem_preorder (h.of_mem_children hn) htn
        have hcm := covers_of_mem_preorder (h.of_mem_children hm) htm
        have hself : t.span.Beside t.span :=
          Span.Beside.mono (s := n.span) (t := m.span) (.inl hle) hcn hcm
        exact absurd rfl (hself.ne (sound_of_mem_preorder (h.of_mem_children hn) htn).nonempty)

end Site

end ClassSplit.Java
