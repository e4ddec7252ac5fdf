import ClassSplit.Proofs.Java.Arena
import Mathlib.Data.List.Flatten
import Mathlib.Data.List.Perm.Subperm
import Mathlib.Logic.Relation

/-!
Walks along the links of an arena. Where the links agree, children have larger numbers than their
parents, so that every walk ends: down, it meets each node below its start once, and each before
its children; up, it ends at a root. Main statements: `Arena.Linked.walk_eq`,
`Arena.Linked.descendants_eq`, `Arena.Linked.mem_descendants`.
-/

namespace ClassSplit.Java.Arena

variable {a : Arena} {id c d m p depth : Nat}

-- A node is another one or hangs below it.
def Below (a : Arena) : Nat → Nat → Prop := Relation.ReflTransGen fun c p => a.parent? c = some p

-- A node and those below it down to some depth, each before its children.
def preorderTo (a : Arena) : Nat → Nat → List Nat
  | 0, _ => []
  | depth + 1, id => id :: (a.children id).flatMap (a.preorderTo depth)

theorem Below.total (hc : a.Below m c) (hd : a.Below m d) : a.Below c d ∨ a.Below d c := by
  refine Relation.ReflTransGen.total_of_right_unique (fun x p q hp hq => ?_) hc hd
  exact Option.some.inj (hp.symm.trans hq)

theorem Below.eq_of_root (h : a.Below c d) (hc : a.parent? c = none) : c = d := by
  obtain rfl | ⟨p, hp, -⟩ := Relation.ReflTransGen.cases_head h
  · rfl
  · rw [hc] at hp
    cases hp

variable {pending : List Nat}

namespace Linked

theorem le_of_below (h : a.Linked pending) (hm : a.Below m id) : id ≤ m := by
  induction hm with
  | refl => exact Nat.le_refl _
  | tail _ hp ih => exact Nat.le_of_lt (Nat.lt_of_lt_of_le (h.lt hp) ih)

theorem below_of_mem_preorderTo (h : a.Linked pending) (hm : m ∈ a.preorderTo depth id) :
    a.Below m id := by
  induction depth generalizing id with
  | zero => cases hm
  | succ depth ih =>
    obtain rfl | hm := List.mem_cons.mp hm
    · exact .refl
    · obtain ⟨c, hc, hm⟩ := List.mem_flatMap.mp hm
      exact (ih hm).tail (h.parent? hc)

theorem mem_preorderTo_of_below (h : a.Linked []) (hm : m < a.size) (hbelow : a.Below m id)
    (hdepth : a.size ≤ id + depth) : m ∈ a.preorderTo depth id := by
  induction depth generalizing id with
  | zero => exact absurd (h.le_of_below hbelow) (by omega)
  | succ depth ih =>
    obtain rfl | ⟨c, hmc, hc⟩ := Relation.ReflTransGen.cases_tail hbelow
    · exact List.mem_cons_self
    · have hlt := h.lt hc
      refine List.mem_cons_of_mem id (List.mem_flatMap.mpr ⟨c, ?_, ih hmc (by omega)⟩)
      exact h.mem_children.mpr ⟨hc, List.not_mem_nil⟩

-- What hangs below a child does not hang below a sibling.
theorem not_below_sibling (h : a.Linked pending) (hc : a.parent? c = some p)
    (hd : a.parent? d = some p) (hne : c ≠ d) : ¬a.Below c d := by
  intro hbelow
  obtain rfl | ⟨q, hq, hqd⟩ := Relation.ReflTransGen.cases_head hbelow
  · exact hne rfl
  · have hqp : q = p := Option.some.inj (hq.symm.trans hc)
    exact Nat.not_lt.mpr (h.le_of_below hqd) (hqp ▸ h.lt hd)

theorem nodup_preorderTo (h : a.Linked pending) (depth id : Nat) :
    (a.preorderTo depth id).Nodup := by
  induction depth generalizing id with
  | zero => exact List.nodup_nil
  | succ depth ih =>
    refine List.nodup_cons.mpr ⟨fun hid => ?_, List.nodup_flatMap.mpr ⟨fun c _ => ih c, ?_⟩⟩
    · obtain ⟨c, hc, hid⟩ := List.mem_flatMap.mp hid
      have hle := h.le_of_below (h.below_of_mem_preorderTo hid)
      exact Nat.not_lt.mpr hle (h.lt (h.parent? hc))
    · refine (h.nodup id).imp_of_mem fun {c d} hc hd hne m hmc hmd => ?_
      have hcd := (h.below_of_mem_preorderTo hmc).total (h.below_of_mem_preorderTo hmd)
      obtain hcd | hdc := hcd
      · exact h.not_below_sibling (h.parent? hc) (h.parent? hd) hne hcd
      · exact h.not_below_sibling (h.parent? hd) (h.parent? hc) hne.symm hdc

theorem lt_size_of_mem_preorderTo (h : a.Linked pending) (hid : id < a.size)
    (hm : m ∈ a.preorderTo depth id) : m < a.size := by
  obtain rfl | ⟨p, hp, -⟩ := Relation.ReflTransGen.cases_head (h.below_of_mem_preorderTo hm)
  · exact hid
  · exact lt_size_of_parent? hp

theorem length_preorderTo_le (h : a.Linked pending) (hid : id < a.size) (depth : Nat) :
    (a.preorderTo depth id).length ≤ a.size := by
  have hsub : a.preorderTo depth id ⊆ List.range a.size := fun m hm =>
    List.mem_range.mpr (h.lt_size_of_mem_preorderTo hid hm)
  have hle := ((h.nodup_preorderTo depth id).subperm hsub).length_le
  rwa [List.length_range] at hle

-- A walk has met all nodes below the top of its stack before it comes to the rest.
theorem walk_cons (h : a.Linked pending) (hid : id < a.size) (hdepth : a.size ≤ id + depth)
    (steps : Nat) (stack : List Nat) :
    a.walk (steps + (a.preorderTo depth id).length) (id :: stack) =
      (a.walk steps stack).map (a.preorderTo depth id ++ ·) := by
  induction depth generalizing id steps stack with
  | zero => exact absurd hid (Nat.not_lt.mpr hdepth)
  | succ depth ih =>
    have hbelow (cs : List Nat) (hcs : ∀ c ∈ cs, c < a.size ∧ a.size ≤ c + depth) :
        a.walk (steps + (cs.flatMap (a.preorderTo depth)).length) (cs ++ stack) =
          (a.walk steps stack).map (cs.flatMap (a.preorderTo depth) ++ ·) := by
      induction cs with
      | nil => simp
      | cons c cs ihcs =>
        have hc := hcs c List.mem_cons_self
        have hrest := ihcs fun d hd => hcs d (List.mem_cons_of_mem c hd)
        rw [List.flatMap_cons, List.length_append, Nat.add_comm (List.length _), ← Nat.add_assoc,
          List.cons_append, ih hc.left hc.right, hrest, Option.map_map]
        simp only [Function.comp_def, List.append_assoc]
    obtain ⟨n, hn⟩ := lt_size_iff.mp hid
    have hchildren : n.children = a.children id := by rw [children, hn]; rfl
    rw [preorderTo, List.length_cons, ← Nat.add_assoc, walk, hn]
    simp only [hchildren]
    rw [hbelow, Option.map_map]
    · simp only [Function.comp_def, List.cons_append]
    · intro c hc
      have hlt := h.lt (h.parent? hc)
      exact ⟨h.lt_size hc, by omega⟩

theorem walk_eq_preorderTo (h : a.Linked pending) (hid : id < a.size)
    (hdepth : a.size ≤ id + depth) {steps : Nat} (hsteps : a.size ≤ steps) :
    a.walk steps [id] = some (a.preorderTo depth id) := by
  have hlength := h.length_preorderTo_le hid depth
  have hwalk := h.walk_cons hid hdepth (steps - (a.preorderTo depth id).length) []
  rw [Nat.sub_add_cancel (Nat.le_trans hlength hsteps)] at hwalk
  rw [hwalk]
  simp [walk]

theorem walk_of_size_le (hid : a.size ≤ id) (steps : Nat) : a.walk (steps + 1) [id] = some [] := by
  have hnone : a.nodes[id]? = none := Array.getElem?_eq_none hid
  rw [walk, hnone]
  simp [walk]

-- Every walk ends, at the latest when it has taken more steps than there are nodes.
theorem walk_eq (h : a.Linked pending) (id : Nat) {steps : Nat} (hsteps : a.size < steps) :
    a.walk steps [id] = some (a.descendants id) := by
  by_cases hid : id < a.size
  case pos =>
    rw [descendants, h.walk_eq_preorderTo hid (Nat.le_add_left _ id) (Nat.le_of_lt hsteps),
      h.walk_eq_preorderTo hid (Nat.le_add_left _ id) (Nat.le_succ _)]
    rfl
  case neg =>
    obtain ⟨k, rfl⟩ := Nat.exists_eq_add_of_lt hsteps
    rw [descendants, walk_of_size_le (Nat.not_lt.mp hid), walk_of_size_le (Nat.not_lt.mp hid)]
    rfl

theorem descendants_eq_preorderTo (h : a.Linked pending) (hid : id < a.size)
    (hdepth : a.size ≤ id + depth) : a.descendants id = a.preorderTo depth id := by
  rw [descendants, h.walk_eq_preorderTo hid hdepth (Nat.le_succ _)]
  rfl

end Linked

theorem descendants_of_size_le (hid : a.size ≤ id) : a.descendants id = [] := by
  rw [descendants, Linked.walk_of_size_le hid]
  rfl

namespace Linked

-- A walk meets its start and then, child by child, what the walks from the children meet.
theorem descendants_eq (h : a.Linked []) (hid : id < a.size) :
    a.descendants id = id :: (a.children id).flatMap a.descendants := by
  obtain ⟨k, hk⟩ := Nat.exists_eq_succ_of_ne_zero (Nat.ne_of_gt (Nat.zero_lt_of_lt hid))
  have hdepth : a.size ≤ id + (k + 1) := by omega
  rw [h.descendants_eq_preorderTo hid hdepth, preorderTo]
  refine congrArg (id :: ·) (List.flatMap_congr fun c hc => ?_)
  have hlt := h.lt (h.parent? hc)
  exact (h.descendants_eq_preorderTo (h.lt_size hc) (by omega)).symm

theorem nodup_descendants (h : a.Linked []) (id : Nat) : (a.descendants id).Nodup := by
  by_cases hid : id < a.size
  case pos =>
    rw [h.descendants_eq_preorderTo hid (Nat.le_add_left _ id)]
    exact h.nodup_preorderTo a.size id
  case neg =>
    rw [descendants_of_size_le (Nat.not_lt.mp hid)]
    exact List.nodup_nil

theorem mem_descendants (h : a.Linked []) : m ∈ a.descendants id ↔ m < a.size ∧ a.Below m id := by
  by_cases hid : id < a.size
  case pos =>
    rw [h.descendants_eq_preorderTo hid (Nat.le_add_left _ id)]
    exact ⟨fun hm => ⟨h.lt_size_of_mem_preorderTo hid hm, h.below_of_mem_preorderTo hm⟩,
      fun hm => h.mem_preorderTo_of_below hm.left hm.right (Nat.le_add_left _ id)⟩
  case neg =>
    rw [descendants_of_size_le (Nat.not_lt.mp hid)]
    refine ⟨fun hm => (List.not_mem_nil hm).elim, fun hm => ?_⟩
    exact absurd (Nat.lt_of_le_of_lt (h.le_of_below hm.right) hm.left) hid

-- The trees of two roots have no node in common.
theorem disjoint_descendants (h : a.Linked []) (hc : a.parent? c = none) (hd : a.parent? d = none)
    (hne : c ≠ d) : List.Disjoint (a.descendants c) (a.descendants d) := by
  intro m hmc hmd
  have hcd := (h.mem_descendants.mp hmc).right.total (h.mem_descendants.mp hmd).right
  obtain hcd | hdc := hcd
  · exact hne (hcd.eq_of_root hc)
  · exact hne (hdc.eq_of_root hd).symm

-- The way up from a node ends at a root, before as many steps as the number of the node.
theorem climb_eq (h : a.Linked pending) {steps : Nat} (hsteps : id ≤ steps) :
    a.parent? (a.climb steps id) = none ∧ a.Below id (a.climb steps id) := by
  induction steps generalizing id with
  | zero =>
    refine ⟨Option.eq_none_iff_forall_ne_some.mpr fun p hp => ?_, .refl⟩
    exact Nat.not_lt_zero p (Nat.lt_of_lt_of_le (h.lt hp) hsteps)
  | succ steps ih =>
    rw [climb]
    split
    case h_1 hroot => exact ⟨hroot, .refl⟩
    case h_2 p hp =>
      have hlt := h.lt hp
      have hp_le : p ≤ steps := by omega
      have ⟨hroot, hbelow⟩ := ih hp_le
      exact ⟨hroot, hbelow.head hp⟩

theorem parent?_rootOf (h : a.Linked pending) (id : Nat) :
    a.parent? (a.rootOf id) = none ∧ a.Below id (a.rootOf id) := h.climb_eq (Nat.le_refl id)

end Linked

end ClassSplit.Java.Arena
