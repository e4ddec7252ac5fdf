import ClassSplit.Java.Source
import ClassSplit.Proofs.Java.Grammar.Rules

/-!
The tree of a text is sound. Putting the comments in keeps the span of every construct, because a
comment that lies in a construct lies between two of its tokens.
-/

namespace ClassSplit.Java

open Text

variable {text : List Char} {lo hi : Nat} {n m : Node} {ns : List Node} {cs : List Comment}

-- Comments that follow each other between two offsets.
structure Comments (text : List Char) (lo hi : Nat) (cs : List Comment) : Prop where
  sound : ∀ c ∈ cs, c.Sound text
  inOrder : Span.InOrder lo hi (cs.map (·.span))

theorem Comments.mem {c : Comment} (h : Comments text lo hi cs) (hc : c ∈ cs) :
    lo ≤ c.span.start ∧ c.span.start < c.span.stop ∧ c.span.stop ≤ hi :=
  h.inOrder.mem (List.mem_map_of_mem hc)

theorem Comments.filter {a b : Nat} {p : Comment → Bool} (h : Comments text lo hi cs)
    (hab : a ≤ b) (hp : ∀ c ∈ cs, p c = true → a ≤ c.span.start ∧ c.span.stop ≤ b) :
    Comments text a b (cs.filter p) where
  sound c hc := h.sound c (List.mem_filter.mp hc).left
  inOrder := by
    refine .of_pairwise hab ?_ (h.inOrder.pairwise.sublist (List.filter_sublist.map _))
    intro s hs
    obtain ⟨c, hc, rfl⟩ := List.mem_map.mp hs
    obtain ⟨hmem, htest⟩ := List.mem_filter.mp hc
    obtain ⟨hstart, hstop⟩ := hp c hmem htest
    exact ⟨hstart, (h.mem hmem).right.left, hstop⟩

theorem Comment.sound_toNode {c : Comment} (h : c.Sound text) : c.toNode.Sound text := by
  have hkind := h.kind
  refine .leaf h.spelled (fun _ => h.solid) ?_ ?_ ?_
  · intro mark hmark
    rw [hmark] at hkind
    cases hkind
  · cases hc : c.kind
    all_goals first | rfl | (rw [hc] at hkind; cases hkind)
  · intro hidentifier
    rw [hidentifier] at hkind
    cases hkind

theorem Comment.isStringPart_toNode {c : Comment} (h : c.Sound text) :
    c.toNode.kind.isStringPart = false := by
  have hkind := h.kind
  change c.kind.isStringPart = false
  cases hc : c.kind
  all_goals first | rfl | (rw [hc] at hkind; cases hkind)

theorem Comment.isSeparator_toNode {c : Comment} (h : c.Sound text) :
    c.toNode.isSeparator = true := by
  have hkind := h.kind
  change (!c.kind.isOperand) = true
  cases hc : c.kind
  all_goals first | rfl | (rw [hc] at hkind; cases hkind)

theorem Comment.isListed_toNode {c : Comment} (h : c.Sound text) :
    c.toNode.kind.isListed = true := by
  have hkind := h.kind
  change c.kind.isListed = true
  cases hc : c.kind
  all_goals first | rfl | (rw [hc] at hkind; cases hkind)

@[simp] theorem Comment.span_toNode (c : Comment) : c.toNode.span = c.span := rfl

@[simp] theorem Comment.role_toNode (c : Comment) : c.toNode.role = none := rfl

namespace Node

@[simp] theorem span_withComments (cs : List Comment) (n : Node) :
    (n.withComments cs).span = n.span := by
  cases n <;> rfl

@[simp] theorem kind_withComments (cs : List Comment) (n : Node) :
    (n.withComments cs).kind = n.kind := by
  cases n <;> rfl

@[simp] theorem role_withComments (cs : List Comment) (n : Node) :
    (n.withComments cs).role = n.role := by
  cases n <;> rfl

@[simp] theorem word_withComments (cs : List Comment) (n : Node) :
    (n.withComments cs).word = n.word := by
  cases n <;> rfl

@[simp] theorem isMark_withComments (cs : List Comment) (n : Node) :
    (n.withComments cs).isMark = n.isMark := by
  cases n with
  | leaf kind => cases kind <;> rfl
  | branch => rfl

@[simp] theorem isSeparator_withComments (cs : List Comment) (n : Node) :
    (n.withComments cs).isSeparator = n.isSeparator := by
  cases n <;> rfl

theorem mergeComments_ne_nil (cs : List Comment) (h : ns ≠ []) : mergeComments cs ns ≠ [] := by
  cases ns with
  | nil => exact absurd rfl h
  | cons n ns => simp [mergeComments]

theorem IsClassBody.withComments (h : n.IsClassBody) (cs : List Comment) :
    (n.withComments cs).IsClassBody := by
  obtain ⟨hkind, hchildren⟩ := h
  refine ⟨by simpa using hkind, ?_⟩
  cases n with
  | leaf => exact absurd rfl hchildren
  | branch => exact mergeComments_ne_nil cs hchildren

theorem mem_mergeComments (h : m ∈ mergeComments cs ns) :
    (∃ c ∈ cs, m = c.toNode) ∨ ∃ n ∈ ns, ∃ inner, m = n.withComments inner := by
  induction ns generalizing cs with
  | nil =>
    obtain ⟨c, hc, rfl⟩ := List.mem_map.mp h
    exact .inl ⟨c, hc, rfl⟩
  | cons n ns ih =>
    rw [mergeComments, List.mem_append, List.mem_cons] at h
    obtain h | h | h := h
    · obtain ⟨c, hc, rfl⟩ := List.mem_map.mp h
      exact .inl ⟨c, (List.mem_filter.mp hc).left, rfl⟩
    · exact .inr ⟨n, List.mem_cons_self, _, h⟩
    · cases ih h with
      | inl hcomment =>
        obtain ⟨c, hc, heq⟩ := hcomment
        exact .inl ⟨c, (List.mem_filter.mp hc).left, heq⟩
      | inr hnode =>
        obtain ⟨k, hk, heq⟩ := hnode
        exact .inr ⟨k, List.mem_cons_of_mem _ hk, heq⟩

theorem exists_mem_mergeComments (cs : List Comment) (h : n ∈ ns) :
    ∃ inner, n.withComments inner ∈ mergeComments cs ns := by
  induction ns generalizing cs with
  | nil => cases h
  | cons k ns ih =>
    rw [mergeComments]
    cases List.mem_cons.mp h with
    | inl heq =>
      subst heq
      exact ⟨_, List.mem_append_right _ List.mem_cons_self⟩
    | inr hmem =>
      obtain ⟨inner, hinner⟩ := ih _ hmem
      exact ⟨inner, List.mem_append_right _ (List.mem_cons_of_mem _ hinner)⟩

-- A node among others keeps its place; behind it come comments and what stood behind it before.
theorem exists_split_mergeComments (cs : List Comment) (front : List Node) (n : Node)
    (back : List Node) : ∃ front' inner cs',
      mergeComments cs (front ++ n :: back) =
        front' ++ n.withComments inner :: mergeComments cs' back ∧ cs' ⊆ cs := by
  induction front generalizing cs with
  | nil => exact ⟨_, _, _, rfl, List.filter_sublist.subset⟩
  | cons k front ih =>
    obtain ⟨front', inner, cs', heq, hsub⟩ := ih (cs.filter (k.span.stop ≤ ·.span.start))
    refine ⟨(cs.filter (·.span.stop ≤ k.span.start)).map (·.toNode) ++
      k.withComments (cs.filter (k.span.covers ·.span)) :: front', inner, cs', ?_,
      List.Subset.trans hsub List.filter_sublist.subset⟩
    rw [List.cons_append, mergeComments, heq, List.append_assoc, List.cons_append]

-- No comment stands in front of the first node where the comments begin with it, and none behind
-- the last one where they end with it.
theorem head?_mergeComments (hcs : Comments text lo hi cs) (h : ns.head? = some n)
    (hlo : n.span.start = lo) :
    ∃ inner, (mergeComments cs ns).head? = some (n.withComments inner) := by
  cases ns with
  | nil => cases h
  | cons k ns =>
    have heq : k = n := Option.some.inj h
    subst heq
    have hnone : cs.filter (·.span.stop ≤ k.span.start) = [] := by
      refine List.filter_eq_nil_iff.mpr ?_
      intro c hc hstop
      have := hcs.mem hc
      have := of_decide_eq_true hstop
      omega
    rw [mergeComments, hnone]
    exact ⟨_, rfl⟩

theorem getLast?_mergeComments (hcs : Comments text lo hi cs) (h : ns.getLast? = some n)
    (hhi : n.span.stop = hi) (hns : Span.InOrder lo hi (ns.map (·.span))) :
    ∃ inner, (mergeComments cs ns).getLast? = some (n.withComments inner) := by
  induction ns generalizing cs lo with
  | nil => cases h
  | cons k ns ih =>
    obtain ⟨hlo, hlt, hrest⟩ := hns
    have hafter : Comments text k.span.stop hi (cs.filter (k.span.stop ≤ ·.span.start)) := by
      refine hcs.filter hrest.le ?_
      intro c hc hstart
      exact ⟨of_decide_eq_true hstart, (hcs.mem hc).right.right⟩
    rw [mergeComments, List.getLast?_append, List.getLast?_cons, Option.some_or]
    cases ns with
    | nil =>
      have heq : k = n := by simpa using h
      subst heq
      have hnone : cs.filter (k.span.stop ≤ ·.span.start) = [] := by
        refine List.eq_nil_iff_forall_not_mem.mpr ?_
        intro c hc
        have := hafter.mem hc
        omega
      rw [hnone]
      exact ⟨_, rfl⟩
    | cons k' ns =>
      obtain ⟨inner, hinner⟩ := ih hafter (by simpa using h) hrest
      refine ⟨inner, ?_⟩
      rw [hinner]
      rfl

theorem run_mergeComments (hns : ∀ n ∈ ns, n.Sound text) (hcs : Comments text lo hi cs)
    (hinOrder : Span.InOrder lo hi (ns.map (·.span)))
    (hwith : ∀ n ∈ ns, ∀ {inner}, Comments text n.span.start n.span.stop inner →
      (n.withComments inner).Sound text) :
    (∀ m ∈ mergeComments cs ns, m.Sound text) ∧
      Span.InOrder lo hi ((mergeComments cs ns).map (·.span)) := by
  induction ns generalizing cs lo with
  | nil =>
    rw [mergeComments]
    refine ⟨?_, ?_⟩
    · intro m hm
      obtain ⟨c, hc, rfl⟩ := List.mem_map.mp hm
      exact Comment.sound_toNode (hcs.sound c hc)
    · rw [List.map_map]
      exact hcs.inOrder
  | cons n ns ih =>
    obtain ⟨hlo, hlt, hrest⟩ := hinOrder
    have hbefore : Comments text lo n.span.start (cs.filter (·.span.stop ≤ n.span.start)) := by
      refine hcs.filter hlo ?_
      intro c hc hstop
      exact ⟨(hcs.mem hc).left, of_decide_eq_true hstop⟩
    have hinside : Comments text n.span.start n.span.stop (cs.filter (n.span.covers ·.span)) := by
      refine hcs.filter (Nat.le_of_lt hlt) ?_
      intro c hc hcovers
      simpa [Span.covers] using hcovers
    have hafter : Comments text n.span.stop hi (cs.filter (n.span.stop ≤ ·.span.start)) := by
      refine hcs.filter hrest.le ?_
      intro c hc hstart
      exact ⟨of_decide_eq_true hstart, (hcs.mem hc).right.right⟩
    obtain ⟨hsound, horder⟩ := ih (fun k hk => hns k (List.mem_cons_of_mem _ hk)) hafter hrest
      fun k hk => hwith k (List.mem_cons_of_mem _ hk)
    rw [mergeComments]
    refine ⟨?_, ?_⟩
    · intro m hm
      rw [List.mem_append, List.mem_cons] at hm
      obtain hm | hm | hm := hm
      · obtain ⟨c, hc, rfl⟩ := List.mem_map.mp hm
        exact Comment.sound_toNode (hbefore.sound c hc)
      · exact hm ▸ hwith n List.mem_cons_self hinside
      · exact hsound m hm
    · rw [List.map_append, List.map_cons, List.map_map, span_withComments]
      exact hbefore.inOrder.append ⟨Nat.le_refl _, hlt, horder⟩

-- Comments stand at neither end of an increment or a decrement.
theorem Signed.withComments {isIncrement isFront : Bool} {first last : Node}
    (hcs : Comments text lo hi cs) (hfirst : ns.head? = some first)
    (hlast : ns.getLast? = some last) (hlo : first.span.start = lo) (hhi : last.span.stop = hi)
    (hinOrder : Span.InOrder lo hi (ns.map (·.span))) (h : Signed ns isIncrement isFront) :
    Signed (mergeComments cs ns) isIncrement isFront := by
  obtain ⟨front, hfront⟩ := head?_mergeComments hcs hfirst hlo
  obtain ⟨back, hback⟩ := getLast?_mergeComments hcs hlast hhi hinOrder
  obtain ⟨⟨sign, hsign, hmark, hkind⟩, operand, hoperand, hnamed⟩ := h
  cases isFront with
  | true =>
    obtain rfl := Option.some.inj (hsign.symm.trans hfirst)
    obtain rfl := Option.some.inj (hoperand.symm.trans hlast)
    exact ⟨⟨_, hfront, by simpa using hmark, by simpa using hkind⟩, _, hback, by simpa using hnamed⟩
  | false =>
    obtain rfl := Option.some.inj (hsign.symm.trans hlast)
    obtain rfl := Option.some.inj (hoperand.symm.trans hfirst)
    exact ⟨⟨_, hback, by simpa using hmark, by simpa using hkind⟩, _, hfront, by simpa using hnamed⟩

-- Comments behind the last variable declare nothing.
theorem Declares.withComments {last : Node} (hcs : Comments text lo hi cs)
    (hlast : ns.getLast? = some last) (hhi : last.span.stop = hi)
    (hinOrder : Span.InOrder lo hi (ns.map (·.span))) (h : Declares ns) :
    Declares (mergeComments cs ns) where
  exists_last := by
    obtain ⟨front, declarator, back, rfl, hkind, hback⟩ := h.exists_last
    obtain ⟨front', inner, cs', heq, hsub⟩ := exists_split_mergeComments cs front declarator back
    refine ⟨front', _, _, heq, by simpa using hkind, fun m hm => ?_⟩
    obtain ⟨c, hc, rfl⟩ | ⟨n, hn, inner', rfl⟩ := mem_mergeComments hm
    · exact Comment.isSeparator_toNode (hcs.sound c (hsub hc))
    · rw [isSeparator_withComments]
      exact hback n hn
  mark := by
    obtain ⟨n, hn, hnmark⟩ := h.mark
    obtain rfl : n = last := Option.some.inj (hn.symm.trans hlast)
    obtain ⟨inner, hinner⟩ := getLast?_mergeComments hcs hn hhi hinOrder
    exact ⟨_, hinner, by simpa using hnmark⟩

-- Comments do not change the shape of a construct.
theorem shape_mergeComments {kind : Kind} {first last : Node} (hcs : Comments text lo hi cs)
    (hfirst : ns.head? = some first) (hlast : ns.getLast? = some last)
    (hlo : first.span.start = lo) (hhi : last.span.stop = hi)
    (hinOrder : Span.InOrder lo hi (ns.map (·.span))) (h : Shape kind ns) :
    Shape kind (mergeComments cs ns) := by
  have hmem : ∀ {p : Node → Prop}, (∀ n inner, p n → p (n.withComments inner)) →
      (∃ n ∈ ns, p n) → ∃ n ∈ mergeComments cs ns, p n := by
    rintro p hp ⟨n, hn, hpn⟩
    obtain ⟨inner, hinner⟩ := exists_mem_mergeComments cs hn
    exact ⟨_, hinner, hp n inner hpn⟩
  have hmark : (∃ n ∈ ns, n.isMark = true) → ∃ n ∈ mergeComments cs ns, n.isMark = true :=
    hmem (by simp)
  have hrole : ∀ role, (∃ n ∈ ns, n.role = some role) →
      ∃ n ∈ mergeComments cs ns, n.role = some role := fun role => hmem (by simp)
  have hall : ∀ {role} {p : Node → Prop}, (∀ n, p n → ∀ inner, p (n.withComments inner)) →
      (∀ n ∈ ns, n.role = some role → p n) →
        ∀ m ∈ mergeComments cs ns, m.role = some role → p m := by
    intro role p hp hns m hm hrole
    cases mem_mergeComments hm with
    | inl hcomment =>
      obtain ⟨c, -, rfl⟩ := hcomment
      cases hrole
    | inr hnode =>
      obtain ⟨n, hn, inner, rfl⟩ := hnode
      rw [role_withComments] at hrole
      exact hp n (hns n hn hrole) inner
  have hlist (h : Parameterized ns) : Parameterized (mergeComments cs ns) := by
    refine ⟨hrole _ h.exists_list, hall ?_ h.kind, fun n hn => ?_⟩
    · simp
    · obtain ⟨inner, hback⟩ := getLast?_mergeComments hcs hlast hhi hinOrder
      rw [Option.some.inj (hn.symm.trans hback), kind_withComments]
      exact h.last last hlast
  unfold Shape at h ⊢
  split at h
  case h_1 => exact ⟨hmark h.left, hrole _ h.right.left, hrole _ h.right.right⟩
  case h_2 =>
    obtain ⟨isIncrement, isFront, hsigned⟩ := h
    exact ⟨isIncrement, isFront, hsigned.withComments hcs hfirst hlast hlo hhi hinOrder⟩
  case h_3 => exact hmark h
  case h_4 =>
    refine hall ?_ h
    simp
  case h_5 =>
    refine ⟨hrole _ h.left, hall ?_ h.right.left, hlist h.right.right⟩
    simp
  case h_6 => exact ⟨hrole _ h.left, hlist h.right⟩
  case h_7 => exact h.withComments hcs hlast hhi hinOrder
  case h_8 =>
    obtain ⟨n, hn, hnmark, hkind⟩ := h
    have heq : n = first := Option.some.inj (hn.symm.trans hfirst)
    obtain ⟨inner, hinner⟩ := head?_mergeComments hcs hn (heq ▸ hlo)
    exact ⟨_, hinner, by simpa using hnmark, by simpa using hkind⟩
  case h_9 =>
    exact ⟨hrole _ h.left, hall (fun n hn inner => hn.withComments inner) h.right⟩
  case h_10 =>
    intro m hm
    obtain ⟨c, hc, rfl⟩ | ⟨n, hn, inner, rfl⟩ := mem_mergeComments hm
    · exact Comment.isListed_toNode (hcs.sound c hc)
    · rw [kind_withComments]
      exact h n hn
  case h_11 => exact ⟨hrole _ h.left, hrole _ h.right⟩
  case h_12 => exact ⟨hmem (by simp) h.left, hmem (by simp) h.right⟩
  case h_13 =>
    refine ⟨hrole _ h.left, hall ?_ h.right⟩
    simp [IsVariableName]
  case h_17 => trivial
  all_goals exact h.elim

theorem Sound.withComments (h : n.Sound text)
    (hcs : Comments text n.span.start n.span.stop cs) : (n.withComments cs).Sound text := by
  induction h generalizing cs with
  | leaf spelled solid mark atomic identifier =>
    exact .leaf spelled solid mark atomic identifier
  | @branch kind role span children fits solid first last inOrder shape whole sound ih =>
    obtain ⟨a, ha, hstart⟩ := Option.map_eq_some_iff.mp first
    obtain ⟨b, hb, hstop⟩ := Option.map_eq_some_iff.mp last
    obtain ⟨hsound, horder⟩ := run_mergeComments sound hcs inOrder ih
    obtain ⟨inner, hhead⟩ := head?_mergeComments hcs ha hstart
    obtain ⟨inner', hlast⟩ := getLast?_mergeComments hcs hb hstop inOrder
    refine .branch fits solid (by simpa [hhead] using hstart) (by simpa [hlast] using hstop) horder
      (shape_mergeComments hcs ha hb hstart hstop inOrder shape) ?_ hsound
    intro hkind m hm
    cases mem_mergeComments hm with
    | inl hcomment =>
      obtain ⟨c, hc, rfl⟩ := hcomment
      exact Comment.isStringPart_toNode (hcs.sound c hc)
    | inr hnode =>
      obtain ⟨n, hn, inner, rfl⟩ := hnode
      rw [kind_withComments]
      exact whole hkind n hn

end Node

-- The constructs and comments outside of all others, in order and sound.
structure Forest (text : List Char) (ns : List Node) : Prop where
  sound : ∀ n ∈ ns, n.Sound text
  inOrder : Span.InOrder 0 (byteLength text) (ns.map (·.span))

-- Where the tree of a text comes from: its tokens form a program, and its comments are put in.
structure Grown (text : List Char) (root : Node) (ns : List Node) (cs : List Comment) : Prop where
  children : root.children = Node.mergeComments cs ns
  exists_run : ∃ lo stop, Run text false lo stop ns
  inOrder : Span.InOrder 0 (byteLength text) (ns.map (·.span))
  comments : Comments text 0 (byteLength text) cs

theorem exists_grown_of_tree? {root : Node} (h : tree? text = some root) :
    ∃ ns cs, Grown text root ns cs := by
  simp only [tree?, Option.bind_eq_bind, Option.bind_eq_some_iff] at h
  obtain ⟨lexed, hlexed, statements, hstatements, heq⟩ := h
  obtain ⟨lo, hsound, hadjacent⟩ := exists_adjacent_of_lex? hlexed
  obtain ⟨stop, hrun, hstop⟩ := Grammar.run_of_program
    ⟨hsound.tokens, hsound.tokensInOrder, hadjacent⟩ hstatements
  have hall : Span.InOrder stop (byteLength text) [] := hstop
  cases heq
  refine ⟨statements, lexed.comments, rfl, ⟨lo, stop, hrun⟩, ?_, hsound.comments,
    hsound.commentsInOrder.mono (Nat.zero_le lo)⟩
  simpa using (hrun.inOrder.append hall).mono (Nat.zero_le lo)

theorem forest_of_tree? {root : Node} (h : tree? text = some root) :
    Forest text root.children := by
  obtain ⟨ns, cs, hchildren, ⟨lo, stop, hrun⟩, hinOrder, hcs⟩ := exists_grown_of_tree? h
  obtain ⟨hnodes, horder⟩ := Node.run_mergeComments hrun.sound hcs hinOrder
    fun n hn _ hinner => (hrun.sound n hn).withComments hinner
  rw [hchildren]
  exact ⟨hnodes, horder⟩

end ClassSplit.Java
