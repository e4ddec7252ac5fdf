import ClassSplit.NewClass.Method
import ClassSplit.Proofs.Java.Cloning
import ClassSplit.Proofs.Java.Sound

/-!
Trees whose words can be edited. Every word of the source is a token, in the tree that is made of it
and in each copy. Main statements: `Arena.editable_lower`, `Arena.Editable.exists_clone`.
-/

namespace ClassSplit.Java

theorem Node.Sound.children_of_isWord {source : List Char} {n m : Node} (h : n.Sound source)
    (hm : m ∈ n.preorder) (hkind : m.kind.isWord = true) : m.children = [] := by
  induction h with
  | leaf =>
    rw [List.mem_singleton.mp hm]
    rfl
  | branch _ _ _ _ _ shape _ _ ih =>
    obtain rfl | hm := List.mem_cons.mp hm
    · exact absurd shape (Node.not_shape_of_isWord hkind _)
    · rw [Node.preorderAll_eq_flatMap] at hm
      obtain ⟨c, hc, hm⟩ := List.mem_flatMap.mp hm
      exact ih c hc hm

namespace Arena

variable {a b : Arena} {id root : Nat}

-- A forest whose words are tokens.
structure Editable (a : Arena) : Prop where
  linked : a.Linked []
  words : ∀ l ∈ a.labels, l.kind.isWord = true → l.isToken = true

theorem editable_lower {source : List Char} {n : Node} (h : n.Sound source) (text : List Char) :
    (empty.lower text n).2.Editable ∧ (empty.lower text n).1 < (empty.lower text n).2.size := by
  have ⟨hlinked, hlabels⟩ := linked_empty.lower text n
  refine ⟨⟨hlinked, fun l hl hkind => ?_⟩, ?_⟩
  · rw [hlabels] at hl
    obtain ⟨m, hm, rfl⟩ := List.mem_map.mp hl
    rw [Node.label, h.children_of_isWord hm hkind]
    rfl
  · have hroot : (empty.lower text n).1 = 0 := by cases n <;> rfl
    rw [hroot, ← length_labels, hlabels]
    cases n with
    | leaf => exact Nat.zero_lt_one
    | branch => exact Nat.zero_lt_succ _

-- A copy that is made for itself.
theorem Editable.exists_clone {original : Arena} (h : original.Editable)
    (hroot : root < original.size) : ∃ b, (clone original root).run empty = .ok 0 b ∧
      b.Editable ∧ b.tokens 0 = original.tokens root := by
  obtain ⟨b, hb, hlinked, hlabels⟩ := Arena.exists_clone h.linked hroot linked_empty
  have hrun := run_clone h.linked hroot empty
  rw [hb] at hrun
  cases hrun
  refine ⟨_, hb, ⟨hlinked, fun l hl => ?_⟩, tokens_clone h.linked hroot empty⟩
  rw [hlabels] at hl
  obtain ⟨id, -, hl⟩ := List.mem_filterMap.mp hl
  exact h.words l (List.mem_of_getElem? hl)

theorem exists_of_findByOrigin? {origin : Span} {kind : String}
    (h : a.findByOrigin? root origin kind = some id) :
    ∃ n, a.nodes[id]? = some n ∧ n.kind.name = kind := by
  have htest := List.find?_some h
  rw [Option.any_eq_true_iff_get] at htest
  obtain ⟨hsome, htest⟩ := htest
  obtain ⟨-, hkind⟩ := Bool.and_eq_true_iff.mp htest
  exact ⟨_, (Option.some_get hsome).symm, beq_iff_eq.mp hkind⟩

theorem Editable.isToken (h : a.Editable) {n : ArenaNode} (hn : a.nodes[id]? = some n)
    (hkind : n.kind.isWord = true) : a.isToken id = true := by
  have hlabel : n.label ∈ a.labels :=
    List.mem_of_getElem? (by rw [getElem?_labels, hn]; rfl)
  rw [Arena.isToken, hn]
  exact h.words n.label hlabel hkind

end Arena

end ClassSplit.Java
