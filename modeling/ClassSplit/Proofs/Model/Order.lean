import ClassSplit.Proofs.Model.OfTree
import Mathlib.Data.List.Sort

/-!
The order of the members of a class. The model lists them in the order in which they stand in the
source, so that sorting some of them by their places takes them out of that list in order.
-/

namespace ClassSplit

open Java

section Sorted

variable {α : Type} {key : α → Nat} {xs ys declared : List α}

theorem eq_of_key_eq {x y : α} (h : declared.Pairwise fun x y => key x < key y)
    (hx : x ∈ declared) (hy : y ∈ declared) (heq : key x = key y) : x = y := by
  have hnodup : (declared.map key).Nodup :=
    List.pairwise_map.mpr (h.imp fun hlt => Nat.ne_of_lt hlt)
  exact List.inj_on_of_nodup_map hnodup hx hy heq

-- Some members of a list with ascending keys, sorted by these.
theorem mergeSort_sublist (h : declared.Pairwise fun x y => key x < key y) (hsub : xs ⊆ declared)
    (hnodup : xs.Nodup) : (xs.mergeSort fun x y => key x ≤ key y).Sublist declared := by
  have hperm := List.mergeSort_perm xs fun x y => key x ≤ key y
  have hsorted : (xs.mergeSort fun x y => key x ≤ key y).Pairwise fun x y => key x ≤ key y := by
    have hle : (xs.mergeSort fun x y => key x ≤ key y).Pairwise
        fun x y => decide (key x ≤ key y) = true := by
      refine List.pairwise_mergeSort ?_ ?_ xs
      · intro x y z hxy hyz
        simp only [decide_eq_true_eq] at *
        omega
      · intro x y
        simp only [Bool.or_eq_true, decide_eq_true_eq]
        omega
    exact hle.imp of_decide_eq_true
  have hstrict : (xs.mergeSort fun x y => key x ≤ key y).Pairwise fun x y => key x < key y := by
    refine (hsorted.and (hperm.nodup_iff.mpr hnodup)).imp_of_mem ?_
    rintro x y hx hy ⟨hle, hne⟩
    refine Nat.lt_of_le_of_ne hle fun heq => hne ?_
    exact eq_of_key_eq h (hsub (hperm.subset hx)) (hsub (hperm.subset hy)) heq
  have : Std.Antisymm fun x y => key x < key y := ⟨fun _ _ hlt hgt => absurd hlt (Nat.lt_asymm hgt)⟩
  exact List.sublist_of_subperm_of_pairwise
    (hperm.subperm_right.mpr (List.subperm_of_subset hnodup hsub)) hstrict h

-- Elements that are kept in order are determined by which they are.
theorem eq_of_sublist (h : declared.Pairwise fun x y => key x < key y)
    (hxs : xs.Sublist declared) (hys : ys.Sublist declared) (hmem : ∀ x, x ∈ xs ↔ x ∈ ys) :
    xs = ys := by
  have hnodup : declared.Nodup := h.imp fun hlt heq => Nat.ne_of_lt hlt (congrArg key heq)
  have hperm := (List.perm_ext_iff_of_nodup (hnodup.sublist hxs) (hnodup.sublist hys)).mpr hmem
  refine hperm.eq_of_pairwise ?_ (h.sublist hxs) (h.sublist hys)
  intro x y _ _ hlt hgt
  exact absurd hlt (Nat.lt_asymm hgt)

end Sorted

namespace JavaSource.PrimaryBody

variable {s : JavaSource} {body : Site} {f : Field}

theorem fields_pairwise (h : s.PrimaryBody body) :
    s.model.fields.Pairwise fun f g => f.declarator.stop ≤ g.declarator.start := by
  rw [h.fields, List.pairwise_flatten]
  constructor
  case left =>
    intro fs hfs
    obtain ⟨group, hgroup, rfl⟩ := List.mem_mapIdx.mp hfs
    split
    case isTrue hkind =>
      have hmember := (List.mem_filter.mp (List.getElem_mem hgroup)).left
      have hsound := (h.of_mem_children hmember).left
      have hne := hsound.children_ne_nil (by rw [hkind])
      have hchildren := (hsound.inOrder hne).pairwise
      exact List.pairwise_map.mp
        (hchildren.sublist (map_declarator_readFields_sublist s.text group _))
    case isFalse => exact .nil
  case right =>
    refine List.pairwise_iff_getElem.mpr ?_
    intro i j hi hj hij f hf g hg
    rw [List.getElem_mapIdx] at hf hg
    rw [List.length_mapIdx] at hi hj
    have hspans := h.stop_le_start (List.getElem?_eq_getElem hi) (List.getElem?_eq_getElem hj) hij
    split at hf
    case isFalse => cases hf
    case isTrue =>
      split at hg
      case isFalse => cases hg
      case isTrue =>
        obtain ⟨-, -, n, hn, -, hnspan⟩ := of_mem_readFields hf
        obtain ⟨-, -, k, hk, -, hkspan⟩ := of_mem_readFields hg
        have hfirst := (h.of_mem_children (List.mem_filter.mp (List.getElem_mem hi)).left).left
        have hsecond := (h.of_mem_children (List.mem_filter.mp (List.getElem_mem hj)).left).left
        have hstop := (Span.covers_iff.mp (hfirst.covers_child hn)).right
        have hstart := (Span.covers_iff.mp (hsecond.covers_child hk)).left
        rw [hnspan, hkspan]
        omega

theorem declarator_nonempty (h : s.PrimaryBody body) (hf : f ∈ s.model.fields) :
    f.declarator.start < f.declarator.stop := by
  obtain ⟨declaration, hat, -, hread⟩ := h.exists_declaration hf
  obtain ⟨-, -, n, hn, -, hspan⟩ := of_mem_readFields hread
  have hmember := (List.mem_filter.mp (List.mem_of_getElem? hat)).left
  rw [hspan]
  exact ((h.of_mem_children hmember).left.of_mem_children hn).nonempty

theorem fields_ascending (h : s.PrimaryBody body) :
    s.model.fields.Pairwise fun f g => f.declarator.start < g.declarator.start := by
  refine h.fields_pairwise.imp_of_mem ?_
  intro f g hf _ hle
  exact Nat.lt_of_lt_of_le (h.declarator_nonempty hf) hle

theorem methods_ascending (h : s.PrimaryBody body) :
    s.model.methods.Pairwise fun m n => m.span.start < n.span.start := by
  have hmembers : (body.node.namedChildren.map (·.span)).Pairwise (·.start < ·.start) := by
    have horder := h.sound.inOrder h.isClassBody.children
    refine (List.Pairwise.imp_of_mem ?_ horder.pairwise).sublist (List.filter_sublist.map _)
    intro s t hs _ hle
    exact Nat.lt_of_lt_of_le (horder.mem hs).right.left hle
  have hspans := hmembers.sublist h.methodSpans
  rwa [List.pairwise_map] at hspans

end JavaSource.PrimaryBody

-- The methods of a class that has been read are all different.
theorem JavaSource.nodup_methods_of_parse {source : String} {wanted : Option String}
    {s : JavaSource} (h : parse source wanted = .ok s) : s.model.methods.Nodup := by
  obtain ⟨body, hbody, -⟩ := exists_primaryBody_of_parse h
  refine hbody.methods_ascending.imp fun {m n} hlt heq => ?_
  rw [heq] at hlt
  exact Nat.lt_irrefl _ hlt

end ClassSplit
