import ClassSplit.Proofs.Model.OfTree

/-!
The parameters that are read from a declaration. The grammar gives every parameter a type and a
name, so that none of them is passed over: the names that are read are those of all parameters, of a
variadic last one too, in the order in which they stand. Main statement:
`JavaSource.exists_parameters`.
-/

namespace ClassSplit

open Java

namespace Java.Kind

-- The parameters that a call has arguments for; the receiver is none of them.
def isParameter (kind : Kind) : Bool := kind = .formalParameter ∨ kind = .spreadParameter

theorem isNamed_of_isParameter {kind : Kind} (h : kind.isParameter = true) :
    kind.isNamed = true := by
  obtain rfl | rfl := of_decide_eq_true h
  all_goals rfl

theorem isNamed_of_isType {kind : Kind} (h : kind.isType = true) :
    kind.isNamed = true ∧ kind ≠ .modifiers ∧ kind ≠ .variableDeclarator := by
  cases kind
  all_goals first | exact ⟨rfl, by decide, by decide⟩ | cases h

end Java.Kind

theorem Java.Node.Sound.parameterized {text : List Char} {declaration : Node}
    (h : declaration.Sound text)
    (hkind : declaration.kind = .methodDeclaration ∨
      declaration.kind = .constructorDeclaration) : Node.Parameterized declaration.children := by
  obtain hkind | hkind := hkind
  · have hshape := h.shape (h.children_ne_nil (by rw [hkind]))
    rw [hkind] at hshape
    exact hshape.right.right
  · have hshape := h.shape (h.children_ne_nil (by rw [hkind]))
    rw [hkind] at hshape
    exact hshape.right

namespace JavaSource

variable {text : List Char} {n declaration : Node}

-- The name that a parameter declares. That of a variadic one stands in a declarator.
inductive NamesParameter (text : List Char) : Node → String → Prop
  | plain {n name : Node} (kind : n.kind = .formalParameter) (isName : n.child? .name = some name) :
    NamesParameter text n (textOf text name)
  | variadic {n declarator name : Node} (kind : n.kind = .spreadParameter)
    (mem : declarator ∈ n.children) (isDeclarator : declarator.kind = .variableDeclarator)
    (isName : declarator.child? .name = some name) : NamesParameter text n (textOf text name)

theorem exists_readParameter? (h : n.Sound text) (hkind : n.kind.isParameter = true) :
    ∃ p, readParameter? text n = some p ∧ NamesParameter text n p.name := by
  obtain hkind | hkind := of_decide_eq_true hkind
  · have hshape := h.shape (h.children_ne_nil (by rw [hkind]))
    rw [hkind] at hshape
    obtain ⟨type, htype⟩ := Node.exists_child? hshape.left
    obtain ⟨name, hname⟩ := Node.exists_child? hshape.right
    exact ⟨_, by rw [readParameter?, hkind, htype, hname]; rfl, .plain hkind hname⟩
  · have hshape := h.shape (h.children_ne_nil (by rw [hkind]))
    rw [hkind] at hshape
    obtain ⟨⟨c, hc, hctype⟩, v, hv, hvkind⟩ := hshape
    obtain ⟨hnamed, hmodifiers, hdeclarator⟩ := Kind.isNamed_of_isType hctype
    obtain ⟨type, htype⟩ : ∃ type, n.namedChildren.find? (fun c =>
        c.kind ≠ .modifiers ∧ c.kind ≠ .variableDeclarator) = some type := by
      refine Option.isSome_iff_exists.mp (List.find?_isSome.mpr ⟨c, ?_, ?_⟩)
      · exact List.mem_filter.mpr ⟨hc, hnamed⟩
      · exact decide_eq_true ⟨hmodifiers, hdeclarator⟩
    obtain ⟨declarator, hfound⟩ : ∃ declarator,
        n.childOfKind? .variableDeclarator = some declarator :=
      Option.isSome_iff_exists.mp (List.find?_isSome.mpr ⟨v, hv, decide_eq_true hvkind⟩)
    have hmem := List.mem_of_find?_eq_some hfound
    have hdkind : declarator.kind = .variableDeclarator := by simpa using List.find?_some hfound
    have hdsound := h.of_mem_children hmem
    have hdshape := hdsound.shape (hdsound.children_ne_nil (by rw [hdkind]))
    rw [hdkind] at hdshape
    obtain ⟨name, hname⟩ := Node.exists_child? hdshape.left
    exact ⟨⟨typeTextOf text type, textOf text name, true⟩,
      by rw [readParameter?, hkind, htype, hfound]; simp [hname],
      .variadic hkind hmem hdkind hname⟩

theorem readParameter?_eq_none (h : n.kind.isParameter = false) : readParameter? text n = none := by
  rw [readParameter?]
  split
  case h_1 hkind =>
    rw [hkind] at h
    cases h
  case h_2 hkind =>
    rw [hkind] at h
    cases h
  case h_3 => rfl

-- The names of all parameters in a list.
theorem forall₂_readParameter? {ns : List Node} (h : ∀ n ∈ ns, n.Sound text) :
    List.Forall₂ (NamesParameter text) (ns.filter (·.kind.isParameter))
      (((ns.filter Node.isNamed).filterMap (readParameter? text)).map (·.name)) := by
  induction ns with
  | nil => exact .nil
  | cons n ns ih =>
    have hrest := ih fun m hm => h m (List.mem_cons_of_mem n hm)
    cases hkind : n.kind.isParameter with
    | true =>
      obtain ⟨p, hp, hnames⟩ := exists_readParameter? (h n List.mem_cons_self) hkind
      have hnamed : n.isNamed = true := Kind.isNamed_of_isParameter hkind
      rw [List.filter_cons, if_pos hkind, List.filter_cons_of_pos hnamed,
        List.filterMap_cons_some hp]
      exact .cons hnames hrest
    | false =>
      rw [List.filter_cons_of_neg (by simp [hkind]), List.filter_cons]
      split
      case isTrue =>
        rw [List.filterMap_cons_none (readParameter?_eq_none hkind)]
        exact hrest
      case isFalse => exact hrest

-- A list of parameters, and the names that it declares.
structure Parameters (text : List Char) (list : Node) (names : List String) : Prop where
  listed : ∀ n ∈ list.children, n.kind.isListed = true
  named : List.Forall₂ (NamesParameter text) (list.children.filter (·.kind.isParameter)) names

theorem exists_parameters (h : declaration.Sound text)
    (hkind : declaration.kind = .methodDeclaration ∨
      declaration.kind = .constructorDeclaration) :
    ∃ list, declaration.child? .parameters = some list ∧
      Parameters text list ((readParameters text declaration).map (·.name)) := by
  have hparameterized := h.parameterized hkind
  obtain ⟨list, hlist⟩ := Node.exists_child? hparameterized.exists_list
  have hmem := List.mem_of_find?_eq_some hlist
  have hrole : list.role = some .parameters := by simpa using List.find?_some hlist
  have hsound := h.of_mem_children hmem
  have hlistKind := hparameterized.kind list hmem hrole
  have hshape := hsound.shape (hsound.children_ne_nil (by rw [hlistKind]))
  rw [hlistKind] at hshape
  refine ⟨list, hlist, hshape, ?_⟩
  rw [readParameters, hlist]
  exact forall₂_readParameter? fun n hn => hsound.of_mem_children hn

end JavaSource

end ClassSplit
