import ClassSplit.Proofs.Java.Token

/-!
Subtrees that are cut off. The tokens below a node stand together among the tokens of its tree. When
the node is removed they go, the token behind them takes over the gap in front of them, and nothing
else about any token of the arena changes. Main statements: `Arena.Linked.run_remove`,
`Arena.Linked.leaves_cut`, `Arena.Built.pruned`.
-/

namespace ClassSplit.Java

def Entry.withGap (e : Entry) (gap : String) : Entry := { e with gap }

-- The gap in front of some tokens.
def gapOf : List Entry → String
  | [] => ""
  | t :: _ => t.gap

namespace Arena

variable {a b : Arena} {id root : Nat} {front part back : List Nat} {n : ArenaNode} {gap : String}

-- Tokens of which the first one has another gap.
def passOn (gap : String) : List Entry → List Entry
  | [] => []
  | t :: ts => t.withGap gap :: ts

section Segment

theorem Linked.rootOf_eq_of_below (h : a.Linked []) (hid : a.Below id root) :
    a.rootOf id = a.rootOf root := by
  have ⟨htop, hbelow⟩ := h.parent?_rootOf root
  exact h.rootOf_eq htop (hid.trans hbelow)

-- A walk meets all that hangs below a node in one go.
theorem Linked.exists_descendants_split (h : a.Linked []) (hbelow : a.Below id root) :
    ∃ front back, a.descendants root = front ++ a.descendants id ++ back := by
  induction hbelow with
  | refl => exact ⟨[], [], (List.append_nil _).symm⟩
  | @tail c p _ hp ih =>
    obtain ⟨front, back, hsplit⟩ := ih
    have hp_lt : p < a.size := Nat.lt_trans (h.lt hp) (lt_size_of_parent? hp)
    obtain ⟨before, after, hchildren⟩ :=
      List.append_of_mem (h.mem_children.mpr ⟨hp, List.not_mem_nil⟩)
    refine ⟨p :: before.flatMap a.descendants ++ front,
      back ++ after.flatMap a.descendants, ?_⟩
    rw [h.descendants_eq hp_lt, hchildren, List.flatMap_append, List.flatMap_cons, hsplit]
    simp only [List.append_assoc, List.cons_append]

theorem Linked.exists_leaves_split (h : a.Linked []) (hbelow : a.Below id root) :
    ∃ front back, a.leaves root = front ++ a.leaves id ++ back := by
  obtain ⟨front, back, hsplit⟩ := h.exists_descendants_split hbelow
  refine ⟨front.filter a.isToken, back.filter a.isToken, ?_⟩
  rw [leaves, hsplit, List.filter_append, List.filter_append, leaves]

theorem Linked.nodup_leaves (h : a.Linked []) (root : Nat) : (a.leaves root).Nodup :=
  (h.nodup_descendants root).filter _

theorem following?_of_split (hne : part ≠ []) (hnodup : (front ++ part ++ back).Nodup) :
    following? (front ++ part ++ back) part = back.head? := by
  obtain rfl | ⟨init, last, rfl⟩ := List.eq_nil_or_concat' part
  · exact absurd rfl hne
  have hplace (ids : List Nat) (hids : last ∉ ids) :
      (ids ++ last :: back).idxOf? last = some ids.length := by
    induction ids with
    | nil => rw [List.nil_append, List.idxOf?_cons, if_pos (beq_self_eq_true last)]; rfl
    | cons c ids ih =>
      obtain ⟨hne, hids⟩ := not_or.mp (List.mem_cons.not.mp hids)
      rw [List.cons_append, List.idxOf?_cons, if_neg (by simpa using Ne.symm hne), ih hids]
      rfl
  have hsplit : front ++ (init ++ [last]) ++ back = front ++ init ++ last :: back := by simp
  rw [hsplit] at hnodup ⊢
  have hids : last ∉ front ++ init := fun hmem =>
    (List.nodup_append.mp hnodup).right.right last hmem last List.mem_cons_self rfl
  have hnext : (front ++ init ++ last :: back)[(front ++ init).length + 1]? = back.head? := by
    rw [List.getElem?_append_right (Nat.le_add_right _ 1), Nat.add_sub_cancel_left,
      List.getElem?_cons_succ, List.head?_eq_getElem?]
  rw [following?]
  simp only [List.getLast?_append, List.getLast?_singleton, Option.some_or, Option.bind_eq_bind,
    Option.bind_some, hplace _ hids, hnext]

end Segment

section Cut

-- The arena with a change of a node, if there is one.
def modifyAt (a : Arena) (id : Option Nat) (f : ArenaNode → ArenaNode) : Arena :=
  match id with
  | none => a
  | some id => a.modify id f

@[simp]
theorem size_modifyAt (a : Arena) (id : Option Nat) (f : ArenaNode → ArenaNode) :
    (a.modifyAt id f).size = a.size := by
  cases id with
  | none => rfl
  | some id => exact size_modify a id f

theorem getElem?_modifyAt (a : Arena) (id : Option Nat) (f : ArenaNode → ArenaNode) (i : Nat) :
    (a.modifyAt id f).nodes[i]? = a.nodes[i]?.map fun n => if id = some i then f n else n := by
  cases id with
  | none => simp [modifyAt]
  | some id =>
    rw [modifyAt, modify, Array.getElem?_modify]
    by_cases hi : id = i
    case pos => simp [hi]
    case neg => simp [hi]

-- The token behind a subtree.
def next? (a : Arena) (id : Nat) : Option Nat :=
  following? (a.leaves (a.rootOf id)) (a.leaves id)

-- What is left behind when a node is removed.
def cut (a : Arena) (id : Nat) : Arena :=
  let gapped := a.modifyAt (a.next? id) fun n => { n with gap := gapOf (a.tokens id) }
  let unlisted := gapped.modifyAt (a.parent? id) (·.dropChild id)
  unlisted.modifyAt (some id) fun n => { n with parent := none }

theorem getElem?_cut (a : Arena) (id i : Nat) : (a.cut id).nodes[i]? = a.nodes[i]?.map fun n =>
    { n with
      gap := if a.next? id = some i then gapOf (a.tokens id) else n.gap
      parent := if id = i then none else n.parent
      children := if a.parent? id = some i then n.children.filter (· ≠ id) else n.children } := by
  rw [cut, getElem?_modifyAt, getElem?_modifyAt, getElem?_modifyAt, Option.map_map, Option.map_map]
  refine congrArg (a.nodes[i]?.map ·) (funext fun n => ?_)
  simp only [Function.comp_apply, Option.some.injEq]
  split_ifs <;> rfl

@[simp]
theorem size_cut (a : Arena) (id : Nat) : (a.cut id).size = a.size := by
  rw [cut, size_modifyAt, size_modifyAt, size_modifyAt]

theorem entryAt?_cut (a : Arena) (id i : Nat) : (a.cut id).entryAt? i = (a.entryAt? i).map fun e =>
    if a.next? id = some i then e.withGap (gapOf (a.tokens id)) else e := by
  rw [entryAt?, getElem?_cut, Option.map_map, entryAt?, Option.map_map]
  refine congrArg (a.nodes[i]?.map ·) (funext fun n => ?_)
  simp only [Function.comp_apply]
  split_ifs <;> rfl

theorem run_unlist {parent : Option Nat} (hparent : ∀ p ∈ parent, p < a.size) (id : Nat) :
    (unlist id parent).run a = .ok () (a.modifyAt parent (·.dropChild id)) := by
  cases parent with
  | none => rfl
  | some p => exact run_update (hparent p rfl) _

theorem Linked.run_gapBefore (h : a.Linked []) (id : Nat) :
    (gapBefore (a.leaves id)).run a = .ok (gapOf (a.tokens id)) a := by
  rw [tokens]
  cases hleaves : a.leaves id with
  | nil => rfl
  | cons first rest =>
    have hmem : first ∈ a.leaves id := by rw [hleaves]; exact List.mem_cons_self
    obtain ⟨n, hn⟩ := lt_size_iff.mp (h.lt_size_of_mem_leaves hmem)
    have hentry : a.entryAt? first = some n.entry := by rw [entryAt?, hn]; rfl
    rw [gapBefore, Step.run_bind_of_ok (run_fetch hn), entriesAt_cons hentry]
    rfl

theorem Linked.run_passGap (h : a.Linked []) (id : Nat) : (passGap id).run a =
    .ok () (a.modifyAt (a.next? id) fun n => { n with gap := gapOf (a.tokens id) }) := by
  have hget : (EStateM.get : Step Arena).run a = .ok a a := rfl
  rw [passGap, Step.run_bind_of_ok hget, Step.run_bind_of_ok (h.run_gapBefore id), ← next?]
  cases hnext : a.next? id with
  | none => rfl
  | some next => exact run_update (h.lt_size_of_mem_leaves (mem_of_following? hnext)) _

-- A node that there is can be removed.
theorem Linked.run_remove (h : a.Linked []) (hid : id < a.size) :
    (remove id).run a = .ok () (a.cut id) := by
  obtain ⟨n, hn⟩ := lt_size_iff.mp hid
  have hparent : n.parent = a.parent? id := by rw [Arena.parent?, hn]; rfl
  have hlt (p : Nat) (hp : p ∈ a.parent? id) : p < a.size := Nat.lt_trans (h.lt hp) hid
  rw [remove, Step.run_bind_of_ok (run_fetch hn), Step.run_bind_of_ok (h.run_passGap id), hparent,
    Step.run_bind_of_ok (run_unlist (by simpa using hlt) id),
    run_update (by rwa [size_modifyAt, size_modifyAt])]
  rfl

theorem Linked.cutOff_cut (h : a.Linked []) (hid : id < a.size) : CutOff id (a.cut id) a := by
  obtain ⟨b, hb, hcut⟩ := h.exists_remove hid
  rw [h.run_remove hid] at hb
  cases hb
  exact hcut

end Cut

section Walks

-- A walk that does not come by the parent of the node meets what it met before.
theorem CutOff.descendants_of_not_below (hb : CutOff id b a) (h : a.Linked [])
    (hroot : ∀ p, a.parent? id = some p → ¬a.Below p root) :
    b.descendants root = a.descendants root := by
  refine h.descendants_congr (hb.linked h) (by rw [hb.size_eq]) fun m hm => ?_
  rw [hb.children_eq, List.filter_eq_self]
  rintro c hc
  refine decide_eq_true ?_
  rintro rfl
  exact hroot m (h.parent? hc) hm

-- A walk from elsewhere meets the same nodes but those that hang below the node.
theorem CutOff.preorderTo_eq (hb : CutOff id b a) (h : a.Linked []) (hroot : ¬a.Below root id)
    (depth : Nat) : b.preorderTo depth root =
      (a.preorderTo depth root).filter (· ∉ a.descendants id) := by
  induction depth generalizing root with
  | zero => rfl
  | succ depth ih =>
    have hchildren (cs : List Nat) (hcs : ∀ c ∈ cs, a.parent? c = some root) :
        (cs.filter (· ≠ id)).flatMap (b.preorderTo depth) =
          (cs.flatMap (a.preorderTo depth)).filter (· ∉ a.descendants id) := by
      induction cs with
      | nil => rfl
      | cons c cs ihcs =>
        have hc := hcs c List.mem_cons_self
        rw [List.flatMap_cons, List.filter_append,
          ← ihcs fun d hd => hcs d (List.mem_cons_of_mem c hd)]
        by_cases heq : c = id
        case pos =>
          subst heq
          have hgone : (a.preorderTo depth c).filter (· ∉ a.descendants c) = [] := by
            refine List.filter_eq_nil_iff.mpr fun m hm => ?_
            have hmem : m ∈ a.descendants c := h.mem_descendants.mpr
              ⟨h.lt_size_of_mem_preorderTo (lt_size_of_parent? hc) hm, h.below_of_mem_preorderTo hm⟩
            simpa using hmem
          rw [List.filter_cons_of_neg (by simp), hgone, List.nil_append]
        case neg =>
          have hbelow : ¬a.Below c id := by
            intro hbelow
            obtain rfl | ⟨p, hp, hbelow⟩ := Relation.ReflTransGen.cases_head hbelow
            · exact heq rfl
            · cases hp.symm.trans hc
              exact hroot hbelow
          rw [List.filter_cons_of_pos (by simpa using heq), List.flatMap_cons, ih hbelow]
    have hmem : root ∉ a.descendants id := fun hmem => hroot (h.mem_descendants.mp hmem).right
    rw [preorderTo, preorderTo, hb.children_eq, hchildren _ fun c hc => h.parent? hc,
      List.filter_cons_of_pos (by simpa using hmem)]

theorem CutOff.leaves_eq (hb : CutOff id b a) (h : a.Linked []) (hroot : ¬a.Below root id) :
    b.leaves root = (a.leaves root).filter (· ∉ a.leaves id) := by
  have hdescendants := descendants_eq_of_preorderTo (List.filter (· ∉ a.descendants id)) h
    (hb.linked h) (by rw [hb.size_eq]) rfl (hb.preorderTo_eq h hroot)
  rw [leaves, hdescendants, funext hb.isToken_eq, List.filter_comm, leaves]
  refine List.filter_congr fun m hm => ?_
  have htoken := (List.mem_filter.mp hm).right
  simp [htoken]

end Walks

section Pruned

-- What removing a node does to an arena, where some tokens of its tree stand in front of those
-- below it and some behind.
structure Pruned (a : Arena) (id : Nat) (front back : List Nat) (b : Arena) : Prop where
  segment : a.leaves (a.rootOf id) = front ++ a.leaves id ++ back
  parent? : b.parent? id = none
  subtree : b.descendants id = a.descendants id ∧ b.tokens id = a.tokens id ∧
    b.render id = a.render id
  others : ∀ i, a.rootOf i ≠ a.rootOf id → b.nodes[i]? = a.nodes[i]? ∧
    b.descendants i = a.descendants i ∧ b.tokens i = a.tokens i ∧ b.render i = a.render i
  root : a.rootOf id = id → b = a
  leaves_eq : a.rootOf id ≠ id → b.leaves (a.rootOf id) = front ++ back
  tokens_eq : a.rootOf id ≠ id → b.tokens (a.rootOf id) =
    a.entriesAt front ++ passOn (gapOf (a.tokens id)) (a.entriesAt back)

section Tokens

variable (h : a.Linked []) (hsplit : a.leaves (a.rootOf id) = front ++ a.leaves id ++ back)
include h hsplit

theorem Linked.nodup_of_split : (front ++ a.leaves id ++ back).Nodup :=
  hsplit ▸ h.nodup_leaves (a.rootOf id)

theorem Linked.next?_eq (hne : a.leaves id ≠ []) : a.next? id = back.head? := by
  rw [next?, hsplit, following?_of_split hne (h.nodup_of_split hsplit)]

-- Only the token behind the subtree says anything else.
theorem Linked.entriesAt_cut {ids : List Nat} (hne : a.leaves id ≠ [])
    (hids : ∀ i ∈ ids, i ∉ back) : (a.cut id).entriesAt ids = a.entriesAt ids := by
  refine entriesAt_congr fun i hi => ?_
  have hnext : a.next? id ≠ some i := by
    rw [h.next?_eq hsplit hne]
    exact fun hhead => hids i hi (List.mem_of_head? hhead)
  simp only [entryAt?_cut, if_neg hnext, Option.map_id_fun']
  rfl

theorem Linked.entriesAt_cut_back (hne : a.leaves id ≠ []) :
    (a.cut id).entriesAt back = passOn (gapOf (a.tokens id)) (a.entriesAt back) := by
  have hnext := h.next?_eq hsplit hne
  have hnodup := (List.nodup_append.mp (h.nodup_of_split hsplit)).right.left
  cases back with
  | nil => rfl
  | cons next rest =>
    have hmem : next ∈ a.leaves (a.rootOf id) := by rw [hsplit]; simp
    obtain ⟨n, hn⟩ := lt_size_iff.mp (h.lt_size_of_mem_leaves hmem)
    have hold : a.entryAt? next = some n.entry := by rw [entryAt?, hn]; rfl
    have hnew : (a.cut id).entryAt? next = some (n.entry.withGap (gapOf (a.tokens id))) := by
      rw [entryAt?_cut, hold, Option.map_some, hnext, List.head?_cons, if_pos rfl]
    rw [entriesAt_cons hnew, entriesAt_cons hold, passOn]
    refine congrArg _ (entriesAt_congr fun i hi => ?_)
    have hother : a.next? id ≠ some i := by
      rw [hnext]
      rintro heq
      cases heq
      exact (List.nodup_cons.mp hnodup).left hi
    simp only [entryAt?_cut, if_neg hother, Option.map_id_fun']
    rfl

theorem Linked.leaves_cut (hid : id < a.size) (hroot : a.rootOf id ≠ id) :
    (a.cut id).leaves (a.rootOf id) = front ++ back := by
  have htop := (h.parent?_rootOf id).left
  have hbelow : ¬a.Below (a.rootOf id) id := fun hbelow => hroot (hbelow.eq_of_root htop)
  obtain ⟨hleft, -, hback⟩ := List.nodup_append.mp (h.nodup_of_split hsplit)
  obtain ⟨-, -, hfront⟩ := List.nodup_append.mp hleft
  rw [(h.cutOff_cut hid).leaves_eq h hbelow, hsplit, List.filter_append, List.filter_append]
  have hgone : (a.leaves id).filter (· ∉ a.leaves id) = [] :=
    List.filter_eq_nil_iff.mpr fun i hi => by simpa using hi
  rw [hgone, List.append_nil, List.filter_eq_self.mpr, List.filter_eq_self.mpr]
  · exact fun i hi => decide_eq_true fun hmem => hback i (List.mem_append_right front hmem) i hi rfl
  · exact fun i hi => decide_eq_true fun hmem => hfront i hi i hmem rfl

-- The tokens of the tree are those outside of the subtree.
theorem Linked.tokens_cut (hne : a.leaves id ≠ []) (hid : id < a.size)
    (hroot : a.rootOf id ≠ id) : (a.cut id).tokens (a.rootOf id) =
      a.entriesAt front ++ passOn (gapOf (a.tokens id)) (a.entriesAt back) := by
  have hback := (List.nodup_append.mp (h.nodup_of_split hsplit)).right.right
  rw [tokens, h.leaves_cut hsplit hid hroot, entriesAt_append, h.entriesAt_cut_back hsplit hne,
    h.entriesAt_cut hsplit hne]
  exact fun i hi hmem => hback i (List.mem_append_left _ hi) i hmem rfl

end Tokens

-- A root is cut off already.
theorem Linked.cut_of_root (h : a.Linked []) (hroot : a.parent? id = none) : a.cut id = a := by
  have htop : a.rootOf id = id := h.rootOf_eq hroot .refl
  have hnext : a.next? id = none := by
    by_cases hne : a.leaves id = []
    case pos =>
      rw [next?, hne, following?]
      rfl
    case neg =>
      have hsplit : a.leaves (a.rootOf id) = [] ++ a.leaves id ++ [] := by simp [htop]
      exact h.next?_eq hsplit hne
  refine ext_getElem? fun i => ?_
  have hkept (n : ArenaNode) (hn : a.nodes[i]? = some n) :
      (if id = i then none else n.parent) = n.parent := by
    split_ifs with hi
    · subst hi
      rw [Arena.parent?, hn] at hroot
      exact hroot.symm
    · rfl
  rw [getElem?_cut]
  cases hn : a.nodes[i]? with
  | none => rfl
  | some n => simp [hnext, hroot, hkept n hn]

theorem Linked.lt_size_of_leaves (h : a.Linked []) (hne : a.leaves id ≠ []) : id < a.size := by
  obtain ⟨t, ht⟩ := List.exists_mem_of_ne_nil _ hne
  obtain ⟨hlt, hbelow, -⟩ := h.mem_leaves.mp ht
  exact Nat.lt_of_le_of_lt (h.le_of_below hbelow) hlt

-- A node of another tree is what it was.
theorem Linked.getElem?_cut_of_ne {i : Nat} (h : a.Linked []) (hi : a.rootOf i ≠ a.rootOf id) :
    (a.cut id).nodes[i]? = a.nodes[i]? := by
  have hnext : a.next? id ≠ some i := by
    intro hnext
    have hbelow := (h.mem_leaves.mp (mem_of_following? hnext)).right.left
    exact hi (h.rootOf_eq (h.parent?_rootOf id).left hbelow)
  have hparent : a.parent? id ≠ some i := fun hp => hi (h.rootOf_eq_of_below (.single hp)).symm
  have hne : id ≠ i := by
    rintro rfl
    exact hi rfl
  simp [getElem?_cut, hnext, hparent, hne]

-- A token that is removed hands the gap in front of it to the one behind it.
theorem Linked.exists_remove_token (h : a.Linked []) (hroot : a.parent? root = none)
    (hleaves : a.leaves root = front ++ id :: back) (hn : a.nodes[id]? = some n)
    (hne : root ≠ id) : ∃ b, (remove id).run a = .ok () b ∧ CutOff id b a ∧
      b.tokens root = a.entriesAt front ++ passOn n.gap (a.entriesAt back) := by
  have hmem : id ∈ a.leaves root := by rw [hleaves]; simp
  obtain ⟨hid, hbelow, htoken⟩ := h.mem_leaves.mp hmem
  have hone : a.leaves id = [id] := h.leaves_of_isToken htoken
  have htop : a.rootOf id = root := h.rootOf_eq hroot hbelow
  have hsplit : a.leaves (a.rootOf id) = front ++ a.leaves id ++ back := by
    rw [htop, hone, hleaves, List.append_assoc, List.singleton_append]
  have hgap : gapOf (a.tokens id) = n.gap := by
    have hentry : a.entryAt? id = some n.entry := by rw [entryAt?, hn]; rfl
    rw [tokens, hone, entriesAt_cons hentry]
    rfl
  have htokens := h.tokens_cut hsplit (by simp [hone]) hid (htop ▸ hne)
  rw [htop, hgap] at htokens
  exact ⟨_, h.run_remove hid, h.cutOff_cut hid, htokens⟩

-- Whatever has a token below it can be removed. The tokens below it stand together; without them,
-- the one behind them has the gap in front of them, and all else says what it said.
theorem Linked.exists_pruned (h : a.Linked []) (hne : a.leaves id ≠ []) : ∃ front back b,
    (remove id).run a = .ok () b ∧ (remove id).run b = .ok () b ∧ a.Pruned id front back b := by
  have hid := h.lt_size_of_leaves hne
  obtain ⟨htop, hbelow⟩ := h.parent?_rootOf id
  obtain ⟨front, back, hsplit⟩ := h.exists_leaves_split hbelow
  have hcut := h.cutOff_cut hid
  have hlinked := hcut.linked h
  have hparent : (a.cut id).parent? id = none := by rw [hcut.parent?_eq, if_pos rfl]
  have hsubtree : (a.cut id).descendants id = a.descendants id :=
    hcut.descendants_of_not_below h fun p hp hbelow =>
      Nat.not_lt.mpr (h.le_of_below hbelow) (h.lt hp)
  have htokens : (a.cut id).tokens id = a.tokens id := by
    have hback := (List.nodup_append.mp (h.nodup_of_split hsplit)).right.right
    rw [tokens, hcut.leaves_eq_of_descendants hsubtree, h.entriesAt_cut hsplit hne, tokens]
    exact fun i hi hmem => hback i (List.mem_append_right front hi) i hmem rfl
  refine ⟨front, back, a.cut id, h.run_remove hid, ?_, hsplit, hparent,
    ⟨hsubtree, htokens, render_congr htokens⟩, fun i hi => ⟨h.getElem?_cut_of_ne hi, ?_⟩,
    fun hroot => h.cut_of_root (hroot ▸ htop), h.leaves_cut hsplit hid, h.tokens_cut hsplit hne hid⟩
  · rw [hlinked.run_remove (by rwa [size_cut]), hlinked.cut_of_root hparent]
  · have hnodes (m : Nat) (hm : a.Below m i) : (a.cut id).nodes[m]? = a.nodes[m]? :=
      h.getElem?_cut_of_ne (by rwa [h.rootOf_eq_of_below hm])
    obtain ⟨hdescendants, htokens⟩ := h.tokens_congr hlinked (by rw [size_cut]) hnodes
    exact ⟨hdescendants, htokens, render_congr htokens⟩

theorem Built.pruned {origins : List Node} (h : Built a origins) (hne : a.leaves id ≠ []) :
    ∃ front back b, (Arena.remove id).run a = .ok () b ∧ (Arena.remove id).run b = .ok () b ∧
      a.Pruned id front back b :=
  h.linked.left.exists_pruned hne

theorem pruned_block :
    let n := Node.branch .program none ⟨0, 9⟩
      [.leaf .identifier none ⟨0, 1⟩ "A",
        .branch .block none ⟨2, 4⟩
          [.leaf (.token "\x7b") none ⟨2, 3⟩ "\x7b", .leaf (.token "\x7d") none ⟨3, 4⟩ "\x7d"],
        .leaf .identifier none ⟨8, 9⟩ "B"]
    let a := (empty.lower "A \x7b\x7d    B".toList n).2
    (∃ front back b, (Arena.remove 2).run a = .ok () b ∧ (Arena.remove 2).run b = .ok () b ∧
      a.Pruned 2 front back b) ∧ (a.cut 2).render 0 = .ok "A B" := by
  intro n a
  have ha : Built a n.preorder := .lower .empty _ n
  exact ⟨ha.pruned (by decide), by decide⟩

end Pruned

end Arena

end ClassSplit.Java
