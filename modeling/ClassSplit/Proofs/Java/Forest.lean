import ClassSplit.Proofs.Java.Traversal

/-!
Arenas are forests. Whatever trees are copied into an arena and whatever is done to its nodes, the
links of the nodes agree afterwards, and a step that fails has changed nothing. Main statements:
`Arena.grows_cloneInto`, `Arena.Linked.exists_remove`, `Arena.Built.isForest`.
-/

namespace ClassSplit.Java.Arena

variable {a b source : Arena} {id p c : Nat} {pending : List Nat} {α β : Type}

namespace Step

theorem run_bind_of_ok {step : Step α} {next : α → Step β} {x : α} (h : step.run a = .ok x b) :
    (step >>= next).run a = (next x).run b := by
  rw [EStateM.run_bind, h]

theorem run_bind_of_error {step : Step α} {next : α → Step β} {e : ArenaError}
    (h : step.run a = .error e b) : (step >>= next).run a = .error e b := by
  rw [EStateM.run_bind, h]

-- The arena that a step leaves behind, whether or not the step succeeds.
def after (step : Step α) (a : Arena) : Arena :=
  match step.run a with
  | .ok _ b => b
  | .error _ b => b

-- A failing run of a step leaves the arena as it was.
def Atomic (step : Step α) (a : Arena) : Prop := ∀ e b, step.run a = .error e b → b = a

end Step

theorem get_of_getElem? {n : ArenaNode} (h : a.nodes[id]? = some n) : a.get id = .ok n := by
  rw [get, h]

theorem get_of_size_le (h : a.size ≤ id) : a.get id = .error (.unknownNode id) := by
  rw [get, Array.getElem?_eq_none h]

theorem run_fetch {n : ArenaNode} (h : a.nodes[id]? = some n) : (fetch id).run a = .ok n a := by
  rw [EStateM.run, fetch, get_of_getElem? h]

theorem run_fetch_of_size_le (h : a.size ≤ id) :
    (fetch id).run a = .error (.unknownNode id) a := by
  rw [EStateM.run, fetch, get_of_size_le h]

theorem run_update (h : id < a.size) (f : ArenaNode → ArenaNode) :
    (update id f).run a = .ok () (a.modify id f) := by
  obtain ⟨n, hn⟩ := lt_size_iff.mp h
  rw [EStateM.run, update, get_of_getElem? hn]

section Clone

-- The labels of the nodes that a copy of a tree takes over.
def labelsTo (source : Arena) (depth id : Nat) : List Label :=
  (source.preorderTo depth id).filterMap (source.labels[·]?)

theorem labelsTo_succ {n : ArenaNode} (h : source.nodes[id]? = some n) (depth : Nat) :
    source.labelsTo (depth + 1) id =
      n.label :: n.children.flatMap (source.labelsTo depth) := by
  have hchildren : source.children id = n.children := by rw [children, h]; rfl
  rw [labelsTo, preorderTo, List.filterMap_cons_some (by rw [getElem?_labels, h]; rfl), hchildren,
    List.filterMap_flatMap]
  rfl

-- The copies of some nodes are put below one node, which lists them.
theorem growsBelow_forM {cs : List Nat} {make : Nat → Step Nat} {ls : Nat → List Label}
    (hmake : ∀ c ∈ cs, ∀ a : Arena, a.Linked pending → p < a.size →
      ∃ b, (make c).run a = .ok a.size b ∧ Grows pending a (some p) (ls c) a.size b)
    (h : a.Linked pending) (hp : p < a.size) (htoken : cs ≠ [] → a.isToken p = false) :
    ∃ b, (forM cs fun c => do
        let copy ← make c
        update p (·.addChild copy)).run a = .ok () b ∧
      GrowsBelow pending a (cs.flatMap ls) b := by
  induction cs generalizing a with
  | nil => exact ⟨a, rfl, .refl h⟩
  | cons c cs ih =>
    have htoken := htoken (List.cons_ne_nil c cs)
    obtain ⟨b, hb, hgrows⟩ := hmake c List.mem_cons_self a h hp
    have hfirst := hgrows.link h.pending hp htoken
    have hlt : p < b.size := Nat.lt_of_lt_of_le hp hgrows.extends_.le
    obtain ⟨d, hd, hrest⟩ := ih (fun c hc => hmake c (List.mem_cons_of_mem _ hc)) hfirst.linked
      (Nat.lt_of_lt_of_le hp hfirst.extends_.le)
      fun _ => (hfirst.extends_.isToken p hp).trans htoken
    refine ⟨d, ?_, hfirst.trans hrest⟩
    rw [List.forM_cons, Step.run_bind_of_ok, hd]
    rw [Step.run_bind_of_ok hb, run_update hlt]
    rfl

theorem grows_cloneInto (hsource : source.Linked []) {depth : Nat} {parent : Option Nat}
    (hid : id < source.size) (hdepth : source.size ≤ id + depth) (h : a.Linked pending)
    (hparent : ∀ p ∈ parent, p < a.size) :
    ∃ b, (cloneInto source depth parent id).run a = .ok a.size b ∧
      Grows pending a parent (source.labelsTo depth id) a.size b := by
  induction depth generalizing id parent a pending with
  | zero => exact absurd hid (Nat.not_lt.mpr hdepth)
  | succ depth ih =>
    obtain ⟨n, hn⟩ := lt_size_iff.mp hid
    have hchildren : source.children id = n.children := by rw [children, hn]; rfl
    let copied : ArenaNode := { n with parent, children := [] }
    have hpushed : (a.push copied).Linked (a.size :: pending) := h.push hparent rfl
    have hmake (c : Nat) (hc : c ∈ n.children) (d : Arena) (hd : d.Linked (a.size :: pending))
        (hlt : a.size < d.size) :
        ∃ b, (cloneInto source depth (some a.size) c).run d = .ok d.size b ∧
          Grows (a.size :: pending) d (some a.size) (source.labelsTo depth c) d.size b := by
      rw [← hchildren] at hc
      have hlt' := hsource.lt (hsource.parent? hc)
      exact ih (hsource.lt_size hc) (by omega) hd (by simpa using hlt)
    have htoken (hne : n.children ≠ []) : (a.push copied).isToken a.size = false := by
      rw [isToken_push, if_pos rfl, Bool.eq_false_iff]
      intro htext
      have hsome : source.isToken id = true := by rw [isToken, hn]; exact htext
      exact hne (hchildren ▸ hsource.token hsome)
    obtain ⟨b, hb, hgrows⟩ := growsBelow_forM hmake hpushed (by simp) htoken
    refine ⟨b, ?_, ?_⟩
    · have horiginal : (MonadExcept.ofExcept (source.get id) : Step ArenaNode).run a = .ok n a := by
        rw [get_of_getElem? hn]
        rfl
      have halloc : (alloc copied).run a = .ok a.size (a.push copied) := rfl
      rw [cloneInto, Step.run_bind_of_ok horiginal, Step.run_bind_of_ok halloc,
        Step.run_bind_of_ok hb]
      rfl
    · rw [labelsTo_succ hn]
      exact grows_push hgrows

theorem exists_clone (hsource : source.Linked []) (hid : id < source.size) (h : a.Linked []) :
    ∃ b, (clone source id).run a = .ok a.size b ∧ b.Linked [] ∧
      b.labels = a.labels ++ (source.descendants id).filterMap (source.labels[·]?) := by
  have hdepth : source.size ≤ id + source.size := Nat.le_add_left _ id
  have hparent : ∀ p ∈ (none : Option Nat), p < a.size := by simp
  obtain ⟨b, hb, hgrows⟩ := grows_cloneInto hsource hid hdepth h hparent
  refine ⟨b, hb, hgrows.linked.of_root hgrows.parent?, ?_⟩
  rw [hgrows.labels_eq, labelsTo, hsource.descendants_eq_preorderTo hid hdepth]

theorem run_clone_of_size_le (h : source.size ≤ id) :
    (clone source id).run a = .error (.unknownNode id) a := by
  rw [clone]
  cases source.size with
  | zero => rfl
  | succ depth =>
    rw [cloneInto, get_of_size_le h]
    rfl

end Clone

section Change

-- An arena with the labels of another, and with some links.
structure Relinked (b a : Arena) (parent? : Nat → Option Nat) (children : Nat → List Nat) :
    Prop where
  parent?_eq : ∀ c, b.parent? c = parent? c
  children_eq : ∀ p, b.children p = children p
  labels_eq : b.labels = a.labels

abbrev Alike (b a : Arena) : Prop := b.Relinked a a.parent? a.children

-- An arena in which a node was cut off.
abbrev CutOff (id : Nat) (b a : Arena) : Prop :=
  b.Relinked a (fun c => if c = id then none else a.parent? c)
    fun p => (a.children p).filter (· ≠ id)

section Relinked

variable {parents : Nat → Option Nat} {lists : Nat → List Nat}

theorem Relinked.size_eq (h : b.Relinked a parents lists) : b.size = a.size := by
  rw [← length_labels, h.labels_eq, length_labels]

theorem Relinked.isToken_eq (h : b.Relinked a parents lists) (c : Nat) :
    b.isToken c = a.isToken c := by
  have hlabel (a : Arena) : a.isToken c = (a.labels[c]?.map (·.isToken)).getD false := by
    rw [getElem?_labels, Option.map_map]
    rfl
  rw [hlabel, h.labels_eq, hlabel]

theorem Alike.linked (hb : b.Alike a) (h : a.Linked []) : b.Linked [] where
  lt {c p} hc := h.lt ((hb.parent?_eq c).symm.trans hc)
  mem_children {c p} := by rw [hb.children_eq, hb.parent?_eq, h.mem_children]
  nodup p := (hb.children_eq p).symm ▸ h.nodup p
  token {p} hp := (hb.children_eq p).trans (h.token ((hb.isToken_eq p).symm.trans hp))
  pending c hc := (List.not_mem_nil hc).elim

theorem CutOff.linked (hb : CutOff id b a) (h : a.Linked []) : b.Linked [] where
  lt {c p} hc := by
    rw [hb.parent?_eq] at hc
    split_ifs at hc
    exact h.lt hc
  mem_children {c p} := by
    rw [hb.children_eq, hb.parent?_eq, List.mem_filter, h.mem_children]
    by_cases hc : c = id
    case pos => simp [hc]
    case neg => simp [hc]
  nodup p := (hb.children_eq p).symm ▸ (h.nodup p).filter _
  token {p} hp := by
    rw [hb.children_eq, h.token ((hb.isToken_eq p).symm.trans hp)]
    rfl
  pending c hc := (List.not_mem_nil hc).elim

end Relinked

theorem run_setText_of_isToken (h : a.isToken id = true) (text : String) :
    ∃ b, (setText id text).run a = .ok () b ∧ b.Alike a := by
  cases hn : a.nodes[id]? with
  | none =>
    rw [isToken, hn] at h
    cases h
  | some n =>
    have htext : n.text.isSome = true := by rwa [isToken, hn] at h
    refine ⟨a.modify id fun n => { n with text := some text }, ?_, ?_, ?_, ?_⟩
    · rw [setText, Step.run_bind_of_ok (run_fetch hn), if_pos htext,
        run_update (lt_size_iff.mpr ⟨n, hn⟩)]
    · exact parent?_modify fun _ _ => rfl
    · exact children_modify fun _ _ => rfl
    · refine labels_modify fun m hm => ?_
      rw [Option.some.inj (hm.symm.trans hn), ArenaNode.label, ArenaNode.label, htext]
      rfl

-- What cannot be given a text: a construct, or nothing at all.
theorem exists_run_setText_of_not_isToken (h : a.isToken id = false) (text : String) :
    ∃ e, (setText id text).run a = .error e a := by
  cases hn : a.nodes[id]? with
  | none =>
    have hfetch := run_fetch_of_size_le (Array.getElem?_eq_none_iff.mp hn)
    exact ⟨_, by rw [setText, Step.run_bind_of_error hfetch]⟩
  | some n =>
    have htext : ¬n.text.isSome = true := by
      rw [isToken, hn] at h
      exact Bool.eq_false_iff.mp h
    exact ⟨_, by rw [setText, Step.run_bind_of_ok (run_fetch hn), if_neg htext]; rfl⟩

theorem Linked.lt_size_of_mem_leaves (h : a.Linked []) (hc : c ∈ a.leaves id) : c < a.size :=
  (h.mem_descendants.mp (List.mem_of_mem_filter hc)).left

theorem mem_of_following? {all part : List Nat} (h : following? all part = some c) : c ∈ all := by
  obtain ⟨last, -, h⟩ := Option.bind_eq_some_iff.mp h
  obtain ⟨place, -, h⟩ := Option.bind_eq_some_iff.mp h
  exact List.mem_of_getElem? h

theorem exists_gapBefore {leaves : List Nat} (h : ∀ c ∈ leaves, c < a.size) :
    ∃ gap, (gapBefore leaves).run a = .ok gap a := by
  cases leaves with
  | nil => exact ⟨"", rfl⟩
  | cons first rest =>
    obtain ⟨n, hn⟩ := lt_size_iff.mp (h first List.mem_cons_self)
    exact ⟨n.gap, by rw [gapBefore, Step.run_bind_of_ok (run_fetch hn)]; rfl⟩

theorem Linked.exists_passGap (h : a.Linked []) (id : Nat) :
    ∃ b, (passGap id).run a = .ok () b ∧ b.Alike a := by
  obtain ⟨gap, hgap⟩ := exists_gapBefore fun c (hc : c ∈ a.leaves id) => h.lt_size_of_mem_leaves hc
  have hget : (EStateM.get : Step Arena).run a = .ok a a := rfl
  rw [passGap, Step.run_bind_of_ok hget, Step.run_bind_of_ok hgap]
  split
  case h_1 next hnext =>
    have hlt := h.lt_size_of_mem_leaves (mem_of_following? hnext)
    refine ⟨_, run_update hlt _, ?_, ?_, ?_⟩
    · exact parent?_modify fun _ _ => rfl
    · exact children_modify fun _ _ => rfl
    · exact labels_modify fun _ _ => rfl
  case h_2 => exact ⟨a, rfl, fun _ => rfl, fun _ => rfl, rfl⟩

theorem children_modify_dropChild (a : Arena) (p id q : Nat) :
    (a.modify p (·.dropChild id)).children q =
      if q = p then (a.children q).filter (· ≠ id) else a.children q := by
  rw [children, modify, Array.getElem?_modify, children]
  by_cases hq : q = p
  case pos =>
    subst hq
    rw [if_pos rfl, if_pos rfl]
    cases a.nodes[q]? with
    | none => rfl
    | some n => rfl
  case neg => rw [if_neg (Ne.symm hq), if_neg hq]

-- Only its parent lists a node, so that it is enough to take it off that list.
theorem Linked.exists_unlist (h : a.Linked []) (id : Nat) :
    ∃ b, (unlist id (a.parent? id)).run a = .ok () b ∧
      b.Relinked a a.parent? fun p => (a.children p).filter (· ≠ id) := by
  have hother {p : Nat} (hp : a.parent? id ≠ some p) :
      a.children p = (a.children p).filter (· ≠ id) := by
    refine (List.filter_eq_self.mpr fun c hc => decide_eq_true ?_).symm
    rintro rfl
    exact hp (h.parent? hc)
  cases hparent : a.parent? id with
  | none => exact ⟨a, rfl, fun _ => rfl, fun p => hother (by simp [hparent]), rfl⟩
  | some p =>
    have hlt : p < a.size := Nat.lt_trans (h.lt hparent) (lt_size_of_parent? hparent)
    refine ⟨_, run_update hlt _, ?_, fun q => ?_, ?_⟩
    · exact parent?_modify fun _ _ => rfl
    · rw [children_modify_dropChild]
      split_ifs with hq
      · rfl
      · refine hother fun heq => hq ?_
        exact Option.some.inj (heq.symm.trans hparent)
    · exact labels_modify fun _ _ => rfl

theorem parent?_modify_orphan (a : Arena) (id c : Nat) :
    (a.modify id fun n => { n with parent := none }).parent? c =
      if c = id then none else a.parent? c := by
  rw [parent?, modify, Array.getElem?_modify, parent?]
  by_cases hc : c = id
  case pos =>
    subst hc
    rw [if_pos rfl, if_pos rfl]
    cases a.nodes[c]? with
    | none => rfl
    | some n => rfl
  case neg => rw [if_neg (Ne.symm hc), if_neg hc]

-- Every node can be cut off, and nothing else about the links or the labels changes.
theorem Linked.exists_remove (h : a.Linked []) (hid : id < a.size) :
    ∃ b, (remove id).run a = .ok () b ∧ CutOff id b a := by
  obtain ⟨n, hn⟩ := lt_size_iff.mp hid
  have hparent : n.parent = a.parent? id := by rw [Arena.parent?, hn]; rfl
  obtain ⟨gapped, hpass, halike⟩ := h.exists_passGap id
  obtain ⟨cut, hunlist, hcut⟩ := (halike.linked h).exists_unlist id
  rw [halike.parent?_eq, ← hparent] at hunlist
  have hlt : id < cut.size := by rwa [hcut.size_eq, halike.size_eq]
  refine ⟨cut.modify id fun n => { n with parent := none }, ?_, fun c => ?_, fun p => ?_, ?_⟩
  · rw [remove, Step.run_bind_of_ok (run_fetch hn), Step.run_bind_of_ok hpass,
      Step.run_bind_of_ok hunlist, run_update hlt]
  · rw [parent?_modify_orphan, hcut.parent?_eq, halike.parent?_eq]
  · rw [children_modify, hcut.children_eq, halike.children_eq]
    exact fun _ _ => rfl
  · rw [labels_modify, hcut.labels_eq, halike.labels_eq]
    exact fun _ _ => rfl

theorem run_remove_of_size_le (h : a.size ≤ id) :
    (remove id).run a = .error (.unknownNode id) a := by
  rw [remove, Step.run_bind_of_error (run_fetch_of_size_le h)]

end Change

section Runs

theorem Linked.lower (h : a.Linked []) (text : List Char) (n : Node) :
    (a.lower text n).2.Linked [] ∧
      (a.lower text n).2.labels = a.labels ++ n.preorder.map Node.label := by
  have hparent : ∀ p ∈ (none : Option Nat), p < a.size := by simp
  have hgrows := grows_lower text none (s := ⟨a, n.span.start⟩) h hparent n
  exact ⟨hgrows.linked.of_root hgrows.parent?, hgrows.labels_eq⟩

theorem Linked.after_clone (h : a.Linked []) (hsource : source.Linked []) (id : Nat) :
    ((clone source id).after a).Linked [] ∧ ((clone source id).after a).labels =
      a.labels ++ (source.descendants id).filterMap (source.labels[·]?) := by
  by_cases hid : id < source.size
  case pos =>
    obtain ⟨b, hb, hlinked, hlabels⟩ := exists_clone hsource hid h
    rw [Step.after, hb]
    exact ⟨hlinked, hlabels⟩
  case neg =>
    have hsize := Nat.not_lt.mp hid
    rw [Step.after, run_clone_of_size_le hsize, descendants_of_size_le hsize]
    exact ⟨h, (List.append_nil _).symm⟩

theorem Linked.after_setText (h : a.Linked []) (id : Nat) (text : String) :
    ((setText id text).after a).Linked [] ∧ ((setText id text).after a).labels = a.labels := by
  cases htoken : a.isToken id with
  | true =>
    obtain ⟨b, hb, halike⟩ := run_setText_of_isToken htoken text
    rw [Step.after, hb]
    exact ⟨halike.linked h, halike.labels_eq⟩
  | false =>
    obtain ⟨e, he⟩ := exists_run_setText_of_not_isToken htoken text
    rw [Step.after, he]
    exact ⟨h, rfl⟩

theorem Linked.after_remove (h : a.Linked []) (id : Nat) :
    ((remove id).after a).Linked [] ∧ ((remove id).after a).labels = a.labels := by
  by_cases hid : id < a.size
  case pos =>
    obtain ⟨b, hb, hcut⟩ := h.exists_remove hid
    rw [Step.after, hb]
    exact ⟨hcut.linked h, hcut.labels_eq⟩
  case neg =>
    rw [Step.after, run_remove_of_size_le (Nat.not_lt.mp hid)]
    exact ⟨h, rfl⟩

-- The arenas that some steps make of empty ones, each with the nodes of sources that its nodes were
-- lowered from. A copy was lowered from what its original was lowered from. The arena that is copied
-- from may be any other, or this one as it was at some time.
inductive Built : Arena → List Node → Prop
  | empty : Built empty []
  | lower {a : Arena} {origins : List Node} (h : Built a origins) (text : List Char) (n : Node) :
    Built (a.lower text n).2 (origins ++ n.preorder)
  | clone {a source : Arena} {origins sources : List Node} (h : Built a origins)
    (hsource : Built source sources) (id : Nat) :
    Built ((clone source id).after a)
      (origins ++ (source.descendants id).filterMap (sources[·]?))
  | setText {a : Arena} {origins : List Node} (h : Built a origins) (id : Nat) (text : String) :
    Built ((setText id text).after a) origins
  | remove {a : Arena} {origins : List Node} (h : Built a origins) (id : Nat) :
    Built ((remove id).after a) origins

variable {origins : List Node}

theorem Built.linked (h : Built a origins) :
    a.Linked [] ∧ a.labels = origins.map Node.label := by
  induction h with
  | empty => exact ⟨linked_empty, rfl⟩
  | lower _ text n ih =>
    have ⟨hlinked, hlabels⟩ := ih.left.lower text n
    exact ⟨hlinked, by rw [hlabels, ih.right, List.map_append]⟩
  | clone _ _ id ih ihsource =>
    have ⟨hlinked, hlabels⟩ := ih.left.after_clone ihsource.left id
    refine ⟨hlinked, ?_⟩
    rw [hlabels, ih.right, ihsource.right, List.map_append, List.map_filterMap]
    simp only [List.getElem?_map]
  | setText _ id text ih =>
    have ⟨hlinked, hlabels⟩ := ih.left.after_setText id text
    exact ⟨hlinked, hlabels.trans ih.right⟩
  | remove _ id ih =>
    have ⟨hlinked, hlabels⟩ := ih.left.after_remove id
    exact ⟨hlinked, hlabels.trans ih.right⟩

-- The links of an arena are those of some trees.
structure Forest (a : Arena) : Prop where
  child : ∀ p c, c ∈ a.children p → p < c ∧ c < a.size
  parent : ∀ c p, a.parent? c = some p ↔ c ∈ a.children p
  unique : ∀ p q c, c ∈ a.children p → c ∈ a.children q → p = q
  once : ∀ p, (a.children p).Nodup
  token : ∀ id, a.isToken id = true → a.children id = []

-- The walk from a node ends, and it meets all below the node once, each before its children.
structure Walked (a : Arena) (id : Nat) : Prop where
  ends : ∀ steps, a.size < steps → a.walk steps [id] = some (a.descendants id)
  preorder : a.descendants id =
    if id < a.size then id :: (a.children id).flatMap a.descendants else []
  mem : ∀ m, m ∈ a.descendants id ↔ m < a.size ∧ a.Below m id
  once : (a.descendants id).Nodup

theorem Linked.forest (h : a.Linked []) : a.Forest where
  child _ _ hc := ⟨h.lt (h.parent? hc), h.lt_size hc⟩
  parent c p := by simp [h.mem_children]
  unique _ _ _ hp hq := Option.some.inj ((h.parent? hp).symm.trans (h.parent? hq))
  once := h.nodup
  token _ := h.token

theorem Linked.walked (h : a.Linked []) (id : Nat) : a.Walked id where
  ends _ := h.walk_eq id
  preorder := by
    split_ifs with hid
    · exact h.descendants_eq hid
    · exact descendants_of_size_le (Nat.not_lt.mp hid)
  mem _ := h.mem_descendants
  once := h.nodup_descendants id

theorem atomic_setText (a : Arena) (id : Nat) (text : String) : (setText id text).Atomic a := by
  intro e b hb
  cases htoken : a.isToken id with
  | true =>
    obtain ⟨d, hd, -⟩ := run_setText_of_isToken htoken text
    rw [hd] at hb
    cases hb
  | false =>
    obtain ⟨e, he⟩ := exists_run_setText_of_not_isToken htoken text
    rw [he] at hb
    cases hb
    rfl

theorem Linked.atomic_remove (h : a.Linked []) (id : Nat) : (remove id).Atomic a := by
  intro e b hb
  by_cases hid : id < a.size
  case pos =>
    obtain ⟨d, hd, -⟩ := h.exists_remove hid
    rw [hd] at hb
    cases hb
  case neg =>
    rw [run_remove_of_size_le (Nat.not_lt.mp hid)] at hb
    cases hb
    rfl

theorem Linked.atomic_clone (h : a.Linked []) (hsource : source.Linked []) (id : Nat) :
    (clone source id).Atomic a := by
  intro e b hb
  by_cases hid : id < source.size
  case pos =>
    obtain ⟨d, hd, -⟩ := exists_clone hsource hid h
    rw [hd] at hb
    cases hb
  case neg =>
    rw [run_clone_of_size_le (Nat.not_lt.mp hid)] at hb
    cases hb
    rfl

-- Arenas are forests, whatever is done to them: a node has a text if and only if what it was lowered
-- from is a token, every walk ends, two trees share nothing, and a failing step changes nothing.
theorem Built.isForest (h : Built a origins) :
    a.Forest ∧ a.labels = origins.map Node.label ∧ (∀ id, a.Walked id) ∧
      (∀ r s, a.parent? r = none → a.parent? s = none → r ≠ s →
        List.Disjoint (a.descendants r) (a.descendants s)) ∧
      (∀ id text, (Arena.setText id text).Atomic a) ∧ (∀ id, (Arena.remove id).Atomic a) ∧
      ∀ source sources, Built source sources → ∀ id, (Arena.clone source id).Atomic a := by
  have ⟨hlinked, hlabels⟩ := h.linked
  refine ⟨hlinked.forest, hlabels, hlinked.walked, ?_, ?_, hlinked.atomic_remove, ?_⟩
  · exact fun r s hr hs hne => hlinked.disjoint_descendants hr hs hne
  · exact atomic_setText a
  · exact fun source sources hsource id => hlinked.atomic_clone hsource.linked.left id

theorem isForest_of_copied_class :
    let n := Node.branch .program none ⟨0, 7⟩
      [.leaf (.token "class") none ⟨0, 5⟩ "class", .leaf .identifier none ⟨6, 7⟩ "A"]
    let a := (empty.lower "class A".toList n).2
    let b := (remove 4).after ((Arena.setText 2 "B").after ((Arena.clone a 0).after a))
    Built b (n.preorder ++ n.preorder) ∧ b.descendants 3 = [3, 5] ∧ b.Forest := by
  intro n a b
  have ha : Built a n.preorder := .lower .empty _ n
  have hb : Built b (n.preorder ++ n.preorder) := .remove (.setText (.clone ha ha 0) 2 "B") 4
  exact ⟨hb, by decide, hb.isForest.left⟩

end Runs

end ClassSplit.Java.Arena
