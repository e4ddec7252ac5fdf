import ClassSplit.Proofs.Java.Cloning
import ClassSplit.Proofs.Java.Pruning

/-!
Clones are trees of their own. No link leads from the copy of a tree to any other node, so that
whatever is done to the copy leaves all other trees as they were, and whatever is done to these
leaves the copy as it was. Main statements: `Arena.Linked.edited_of_closed`, `Arena.Built.cloned`.
-/

namespace ClassSplit.Java.Arena

variable {a b source : Arena} {id root i m : Nat} {own : Nat → Prop}

-- What may be done to a node of a tree.
inductive Edit where
  | setText (id : Nat) (text : String)
  | remove (id : Nat)

namespace Edit

def target : Edit → Nat
  | setText id _ => id
  | remove id => id

def step : Edit → Step Unit
  | setText id text => Arena.setText id text
  | remove id => Arena.remove id

end Edit

-- The arena after some edits, whether or not they succeed.
def edited (a : Arena) (edits : List Edit) : Arena :=
  edits.foldl (fun a e => e.step.after a) a

section Frame

-- What an edit leaves alone.
structure Spares (b a : Arena) (target : Nat) : Prop where
  linked : b.Linked []
  size_eq : b.size = a.size
  parent? : ∀ c p, b.parent? c = some p → a.parent? c = some p
  others : ∀ i, a.rootOf i ≠ a.rootOf target → b.nodes[i]? = a.nodes[i]?

theorem Spares.refl (h : a.Linked []) (target : Nat) : a.Spares a target :=
  ⟨h, rfl, fun _ _ => id, fun _ _ => rfl⟩

theorem Linked.spares_setText (h : a.Linked []) (id : Nat) (text : String) :
    ((setText id text).after a).Spares a id := by
  cases htoken : a.isToken id with
  | false =>
    obtain ⟨e, he⟩ := exists_run_setText_of_not_isToken htoken text
    rw [Step.after, he]
    exact .refl h id
  | true =>
    obtain ⟨b, hb, halike⟩ := run_setText_of_isToken htoken text
    have hrun := run_setText htoken text
    rw [hb] at hrun
    cases hrun
    rw [Step.after, hb]
    refine ⟨halike.linked h, halike.size_eq, fun c p hc => (halike.parent?_eq c).symm.trans hc,
      fun i hi => ?_⟩
    have hne : id ≠ i := by
      rintro rfl
      exact hi rfl
    simp [modify, Array.getElem?_modify, hne]

theorem Linked.spares_remove (h : a.Linked []) (id : Nat) :
    ((remove id).after a).Spares a id := by
  by_cases hid : id < a.size
  case neg =>
    rw [Step.after, run_remove_of_size_le (Nat.not_lt.mp hid)]
    exact .refl h id
  case pos =>
    have hcut := h.cutOff_cut hid
    rw [Step.after, h.run_remove hid]
    refine ⟨hcut.linked h, size_cut a id, fun c p hc => ?_, fun i hi => h.getElem?_cut_of_ne hi⟩
    rw [hcut.parent?_eq] at hc
    split_ifs at hc
    exact hc

theorem Linked.spares (h : a.Linked []) (e : Edit) : (e.step.after a).Spares a e.target := by
  cases e with
  | setText id text => exact h.spares_setText id text
  | remove id => exact h.spares_remove id

-- Some nodes, and no link between them and the others.
def Closed (own : Nat → Prop) (a : Arena) : Prop := ∀ c p, a.parent? c = some p → (own c ↔ own p)

theorem Closed.iff_of_below (h : a.Closed own) (hm : a.Below m id) : own m ↔ own id := by
  induction hm with
  | refl => exact .rfl
  | tail _ hp ih => exact ih.trans (h _ _ hp)

-- Edits of other nodes leave those of a closed part of an arena as they were.
theorem Linked.edited_of_closed {edits : List Edit} (h : a.Linked []) (hown : a.Closed own)
    (hedits : ∀ e ∈ edits, ¬own e.target) : (a.edited edits).Linked [] ∧
      (a.edited edits).size = a.size ∧ ∀ i, own i → (a.edited edits).nodes[i]? = a.nodes[i]? := by
  induction edits generalizing a with
  | nil => exact ⟨h, rfl, fun _ _ => rfl⟩
  | cons e edits ih =>
    have hspares := h.spares e
    have hstill : (e.step.after a).Closed own := fun c p hc => hown c p (hspares.parent? c p hc)
    have ⟨hlinked, hsize, hnodes⟩ := ih hspares.linked hstill fun e he =>
      hedits e (List.mem_cons_of_mem _ he)
    refine ⟨hlinked, hsize.trans hspares.size_eq, fun i hi => ?_⟩
    refine (hnodes i hi).trans (hspares.others i fun hroot => ?_)
    have hroots := hown.iff_of_below (h.parent?_rootOf i).right
    have htarget := hown.iff_of_below (h.parent?_rootOf e.target).right
    exact hedits e List.mem_cons_self (htarget.mpr (hroot ▸ hroots.mp hi))

theorem Linked.render_edited {edits : List Edit} (h : a.Linked []) (hown : a.Closed own)
    (hedits : ∀ e ∈ edits, ¬own e.target) (hi : own i) :
    (a.edited edits).nodes[i]? = a.nodes[i]? ∧ (a.edited edits).render i = a.render i := by
  have ⟨hlinked, hsize, hnodes⟩ := h.edited_of_closed hown hedits
  refine ⟨hnodes i hi, render_congr ?_⟩
  exact (h.tokens_congr hlinked (by rw [hsize]) fun m hm =>
    hnodes m ((hown.iff_of_below hm).mpr hi)).right

end Frame

section Clone

-- An arena with a copy of a tree behind all nodes that it had.
structure Cloned (source : Arena) (root : Nat) (a b : Arena) : Prop where
  size_eq : b.size = a.size + (source.descendants root).length
  old : ∀ i < a.size, b.nodes[i]? = a.nodes[i]? ∧ b.render i = a.render i
  descendants_eq : b.descendants a.size = List.range' a.size (source.descendants root).length
  number : ∀ k m, (source.descendants root)[k]? = some m →
    source.copyNumber root a.size m = a.size + k
  copy : ∀ k m, (source.descendants root)[k]? = some m →
    b.nodes[a.size + k]? = source.copied (source.copyNumber root a.size) none root m ∧
      b.render (a.size + k) = source.render m
  parent? : b.parent? a.size = none

-- Edits of nodes with numbers from one on leave the others alone, and the reverse.
structure Isolated (b : Arena) (start : Nat) : Prop where
  before : ∀ edits : List Edit, (∀ e ∈ edits, start ≤ e.target) → ∀ i < start,
    (b.edited edits).nodes[i]? = b.nodes[i]? ∧ (b.edited edits).render i = b.render i
  behind : ∀ edits : List Edit, (∀ e ∈ edits, e.target < start) → ∀ i, start ≤ i →
    (b.edited edits).nodes[i]? = b.nodes[i]? ∧ (b.edited edits).render i = b.render i

theorem Linked.isolated {start : Nat} (h : b.Linked []) (hstart : b.Closed (· < start)) :
    b.Isolated start where
  before edits hedits i hi :=
    h.render_edited hstart (fun e he => Nat.not_lt.mpr (hedits e he)) hi
  behind edits hedits i hi := by
    have hclosed : b.Closed (start ≤ ·) := fun c p hc => by
      simpa only [Nat.not_lt] using not_congr (hstart c p hc)
    exact h.render_edited hclosed (fun e he => Nat.not_le.mpr (hedits e he)) hi

theorem Below.lt_size (h : a.Below m id) (hid : id < a.size) : m < a.size := by
  obtain rfl | ⟨p, hp, -⟩ := Relation.ReflTransGen.cases_head h
  · exact hid
  · exact lt_size_of_parent? hp

variable (h : a.Linked []) (hsource : source.Linked []) (hroot : root < source.size)
include h hsource hroot

theorem Linked.extend_copies : (a.extend (source.copies root a.size)).Linked [] := by
  obtain ⟨b, hb, hlinked, -⟩ := exists_clone hsource hroot h
  rw [run_clone hsource hroot a] at hb
  cases hb
  exact hlinked

-- The links of the copies lead from one to another.
theorem Linked.closed_extend_copies :
    (a.extend (source.copies root a.size)).Closed (· < a.size) := by
  have hlinked := h.extend_copies hsource hroot
  intro c p hp
  refine ⟨fun hc => Nat.lt_trans (hlinked.lt hp) hc, fun hlt => ?_⟩
  refine Decidable.by_contra fun hc => Nat.not_le.mpr hlt ?_
  obtain ⟨k, rfl⟩ := Nat.exists_eq_add_of_le (Nat.not_lt.mp hc)
  obtain ⟨n, hn, hparent⟩ : ∃ n, (source.copies root a.size)[k]? = some n ∧ n.parent = some p := by
    rw [Arena.parent?, getElem?_extend_add] at hp
    simpa [Option.join_eq_some_iff, Option.map_eq_some_iff] using hp
  obtain ⟨m, -, hm⟩ := List.mem_filterMap.mp (List.mem_of_getElem? hn)
  obtain ⟨original, -, rfl⟩ := Option.map_eq_some_iff.mp hm
  dsimp only at hparent
  split_ifs at hparent
  obtain ⟨q, -, rfl⟩ := Option.map_eq_some_iff.mp hparent
  exact Nat.le_add_right _ _

-- The copy of a tree is like the tree, and nothing that was there is changed.
theorem Linked.cloned_extend : Cloned source root a (a.extend (source.copies root a.size)) := by
  have hlinked := h.extend_copies hsource hroot
  have hclosed := h.closed_extend_copies hsource hroot
  have hold (i : Nat) (hi : i < a.size) :
      (a.extend (source.copies root a.size)).nodes[i]? = a.nodes[i]? := by
    rw [getElem?_extend, if_pos hi]
  have hnumber := numberedFrom_copyNumber hsource root a.size
  have htop := copyNumber_root hsource hroot a.size
  have hmem : root ∈ source.descendants root := hsource.mem_descendants.mpr ⟨hroot, .refl⟩
  refine ⟨by rw [size_extend, length_copies hsource], fun i hi => ⟨hold i hi, ?_⟩, ?_, hnumber,
    fun k m hk => ?_, ?_⟩
  · refine render_congr (h.tokens_congr hlinked ?_ fun m hm => hold m ?_).right
    · rw [size_extend]
      omega
    · exact hm.lt_size hi
  · have hall := descendants_copyNumber hsource a hmem
    rw [htop] at hall
    rw [hall]
    refine List.ext_getElem (by simp) fun k hk _ => ?_
    rw [List.length_map] at hk
    rw [List.getElem_map, List.getElem_range', hnumber k _ (List.getElem?_eq_getElem hk),
      Nat.one_mul]
  · have hk' := List.mem_of_getElem? hk
    rw [← hnumber k m hk]
    exact ⟨getElem?_copyNumber hsource a hk', render_congr (tokens_copyNumber hsource a hk')⟩
  · have hcopy := getElem?_copyNumber hsource a hmem
    obtain ⟨n, hn⟩ := lt_size_iff.mp hroot
    rw [htop, copied, hn] at hcopy
    rw [Arena.parent?, hcopy]
    simp

end Clone

-- A node of an arena can be copied into any other, or into one that this arena was at some time.
-- The copy is a tree of its own that is like the one below the node, and all else is what it was.
theorem Built.cloned {origins sources : List Node} (h : Built a origins)
    (hsource : Built source sources) (hroot : root < source.size) :
    ∃ b, (Arena.clone source root).run a = .ok a.size b ∧ Cloned source root a b ∧
      b.Isolated a.size := by
  have ha := h.linked.left
  have hs := hsource.linked.left
  exact ⟨_, run_clone hs hroot a, ha.cloned_extend hs hroot,
    (ha.extend_copies hs hroot).isolated (ha.closed_extend_copies hs hroot)⟩

theorem cloned_snapshot :
    let n := Node.branch .program none ⟨0, 4⟩
      [.leaf .identifier none ⟨0, 1⟩ "A",
        .branch .block none ⟨2, 4⟩
          [.leaf (.token "\x7b") none ⟨2, 3⟩ "\x7b", .leaf (.token "\x7d") none ⟨3, 4⟩ "\x7d"]]
    let a := (Arena.remove 3).after (empty.lower "A \x7b\x7d".toList n).2
    2 < a.size ∧ ∃ b, (Arena.clone a 2).run a = .ok a.size b ∧ Cloned a 2 a b ∧
      b.Isolated a.size := by
  intro n a
  have ha : Built a (n.preorder) := .remove (.lower .empty _ n) 3
  have hsize : 2 < a.size := by decide
  exact ⟨hsize, ha.cloned ha hsize⟩

end ClassSplit.Java.Arena
