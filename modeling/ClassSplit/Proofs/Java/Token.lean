import ClassSplit.Proofs.Java.Copy

/-!
The tokens of a tree in an arena. Trees with the same links and the same nodes have the same tokens;
a token that is given a text says that text, and nothing else changes. Main statements:
`Arena.Linked.tokens_congr`, `Arena.Linked.exists_setText_token`.
-/

namespace ClassSplit.Java

def Entry.withText (e : Entry) (text : String) : Entry := { e with text := some text }

namespace Arena

variable {a b : Arena} {id root : Nat} {front back : List Nat} {n : ArenaNode}

-- The tokens of a tree hang below its root.
theorem Linked.mem_leaves (h : a.Linked []) :
    id ∈ a.leaves root ↔ id < a.size ∧ a.Below id root ∧ a.isToken id = true := by
  rw [leaves, List.mem_filter, h.mem_descendants, and_assoc]

theorem Linked.leaves_of_isToken (h : a.Linked []) (hid : a.isToken id = true) :
    a.leaves id = [id] := by
  rw [leaves, h.descendants_eq (lt_size_of_isToken hid), h.token hid, List.flatMap_nil,
    List.filter_cons_of_pos hid, List.filter_nil]

theorem Linked.rootOf_eq (h : a.Linked []) (hroot : a.parent? root = none)
    (hid : a.Below id root) : a.rootOf id = root := by
  have ⟨htop, hbelow⟩ := h.parent?_rootOf id
  obtain hroots | hroots := hbelow.total hid
  · exact hroots.eq_of_root htop
  · exact (hroots.eq_of_root hroot).symm

section Walks

-- The nodes below a root in two arenas compare as the walks from it do.
theorem descendants_eq_of_preorderTo (f : List Nat → List Nat) (h : a.Linked [])
    (h' : b.Linked []) (hsize : root < b.size ↔ root < a.size) (hnil : f [] = [])
    (hwalk : ∀ depth, b.preorderTo depth root = f (a.preorderTo depth root)) :
    b.descendants root = f (a.descendants root) := by
  by_cases hlt : root < a.size
  case pos =>
    have hdepth : a.size ≤ root + (a.size + b.size) := by omega
    have hdepth' : b.size ≤ root + (a.size + b.size) := by omega
    rw [h.descendants_eq_preorderTo hlt hdepth,
      h'.descendants_eq_preorderTo (hsize.mpr hlt) hdepth', hwalk]
  case neg =>
    rw [descendants_of_size_le (Nat.not_lt.mp hlt),
      descendants_of_size_le (Nat.not_lt.mp (hsize.not.mpr hlt)), hnil]

theorem Linked.preorderTo_congr (h : a.Linked [])
    (hchildren : ∀ m, a.Below m root → b.children m = a.children m) (depth : Nat) :
    b.preorderTo depth root = a.preorderTo depth root := by
  induction depth generalizing root with
  | zero => rfl
  | succ depth ih =>
    rw [preorderTo, preorderTo, hchildren root .refl]
    refine congrArg _ (List.flatMap_congr fun c hc => ih fun m hm => ?_)
    exact hchildren m (hm.tail (h.parent? hc))

-- Where the same children are listed, the same nodes hang.
theorem Linked.descendants_congr (h : a.Linked []) (h' : b.Linked [])
    (hsize : root < b.size ↔ root < a.size)
    (hchildren : ∀ m, a.Below m root → b.children m = a.children m) :
    b.descendants root = a.descendants root :=
  descendants_eq_of_preorderTo (fun ids => ids) h h' hsize rfl (h.preorderTo_congr hchildren)

-- A tree whose nodes stay what they are stays what it is.
theorem Linked.tokens_congr (h : a.Linked []) (h' : b.Linked [])
    (hsize : root < b.size ↔ root < a.size)
    (hnodes : ∀ m, a.Below m root → b.nodes[m]? = a.nodes[m]?) :
    b.descendants root = a.descendants root ∧ b.tokens root = a.tokens root := by
  have hdescendants : b.descendants root = a.descendants root :=
    h.descendants_congr h' hsize fun m hm => by rw [children, hnodes m hm, children]
  have hbelow (m : Nat) (hm : m ∈ a.descendants root) : b.nodes[m]? = a.nodes[m]? :=
    hnodes m (h.mem_descendants.mp hm).right
  have hleaves : b.leaves root = a.leaves root := by
    rw [leaves, hdescendants, leaves]
    exact List.filter_congr fun m hm => by rw [isToken, hbelow m hm, isToken]
  refine ⟨hdescendants, ?_⟩
  rw [tokens, hleaves, tokens]
  refine entriesAt_congr fun m hm => ?_
  rw [entryAt?, hbelow m (List.mem_of_mem_filter hm), entryAt?]

theorem Relinked.leaves_eq_of_descendants {parents : Nat → Option Nat} {lists : Nat → List Nat}
    (hb : b.Relinked a parents lists) (hdescendants : b.descendants root = a.descendants root) :
    b.leaves root = a.leaves root := by
  rw [leaves, hdescendants, funext hb.isToken_eq, leaves]

theorem Alike.leaves_eq (hb : b.Alike a) (h : a.Linked []) (root : Nat) :
    b.leaves root = a.leaves root :=
  Relinked.leaves_eq_of_descendants hb
    (h.descendants_congr (hb.linked h) (by rw [hb.size_eq]) fun m _ => hb.children_eq m)

end Walks

theorem run_setText (h : a.isToken id = true) (text : String) :
    (setText id text).run a = .ok () (a.modify id fun n => { n with text := some text }) := by
  obtain ⟨n, hn⟩ := lt_size_iff.mp (lt_size_of_isToken h)
  have htext : n.text.isSome = true := by rwa [isToken, hn] at h
  rw [setText, Step.run_bind_of_ok (run_fetch hn), if_pos htext,
    run_update (lt_size_iff.mpr ⟨n, hn⟩)]

section Splits

variable (h : a.Linked []) (hleaves : a.leaves root = front ++ id :: back)
include h hleaves

-- A token stands at one place.
theorem Linked.not_mem_of_split : id ∉ front ∧ id ∉ back ∧ ∀ i ∈ front, i ∉ back := by
  have hnodup : (a.leaves root).Nodup := (h.nodup_descendants root).filter _
  rw [hleaves] at hnodup
  obtain ⟨-, hback, hdisjoint⟩ := List.nodup_append.mp hnodup
  refine ⟨fun hid => ?_, (List.nodup_cons.mp hback).left, fun i hi hi' => ?_⟩
  · exact hdisjoint id hid id List.mem_cons_self rfl
  · exact hdisjoint i hi i (List.mem_cons_of_mem id hi') rfl

theorem Linked.exists_node_of_split : ∃ n, a.nodes[id]? = some n ∧ a.isToken id = true := by
  have hmem : id ∈ a.leaves root := by rw [hleaves]; simp
  obtain ⟨hlt, -, htoken⟩ := h.mem_leaves.mp hmem
  obtain ⟨n, hn⟩ := lt_size_iff.mp hlt
  exact ⟨n, hn, htoken⟩

omit h in
theorem tokens_split (hn : a.nodes[id]? = some n) :
    a.tokens root = a.entriesAt front ++ n.entry :: a.entriesAt back := by
  have hentry : a.entryAt? id = some n.entry := by rw [entryAt?, hn]; rfl
  rw [tokens, hleaves, entriesAt_append, entriesAt_cons hentry]

-- A token that is given a text says it from then on.
theorem Linked.exists_setText_token (hn : a.nodes[id]? = some n) (text : String) :
    ∃ b, (setText id text).run a = .ok () b ∧ b.Alike a ∧
      b.tokens root = a.entriesAt front ++ n.entry.withText text :: a.entriesAt back := by
  obtain ⟨-, -, htoken⟩ := h.exists_node_of_split hleaves
  obtain ⟨hfront, hback, -⟩ := h.not_mem_of_split hleaves
  obtain ⟨b, hb, halike⟩ := run_setText_of_isToken htoken text
  have heq : b = a.modify id fun n => { n with text := some text } := by
    rw [run_setText htoken] at hb
    cases hb
    rfl
  have hentry (i : Nat) : b.entryAt? i =
      if i = id then some (n.entry.withText text) else a.entryAt? i := by
    rw [heq, entryAt?, modify, Array.getElem?_modify]
    by_cases hi : i = id
    case pos =>
      subst hi
      rw [if_pos rfl, if_pos rfl, hn]
      rfl
    case neg =>
      rw [if_neg (Ne.symm hi), if_neg hi]
      rfl
  have hkept {ids : List Nat} (hids : id ∉ ids) : b.entriesAt ids = a.entriesAt ids :=
    entriesAt_congr fun i hi => by rw [hentry, if_neg (ne_of_mem_of_not_mem hi hids)]
  have hid : b.entryAt? id = some (n.entry.withText text) := by
    rw [hentry, if_pos rfl]
  refine ⟨b, hb, halike, ?_⟩
  rw [tokens, halike.leaves_eq h, hleaves, entriesAt_append, entriesAt_cons hid, hkept hfront,
    hkept hback]

end Splits

end Arena

end ClassSplit.Java
