import ClassSplit.Model.OfTree
import ClassSplit.Proofs.Java.Site

/-!
Where the members of the primary class stand in the tree. Fields and methods are read from children
of the body of the class, a field with the index of its declaration among them as its group.
-/

namespace ClassSplit

open Java

theorem map_filterMap_sublist {α β γ : Type} {f : α → Option β} {g : β → γ} {k : α → γ}
    (h : ∀ x y, f x = some y → g y = k x) (xs : List α) :
    ((xs.filterMap f).map g).Sublist (xs.map k) := by
  induction xs with
  | nil => exact .slnil
  | cons x xs ih =>
    cases hx : f x with
    | none =>
      rw [List.filterMap_cons_none hx]
      exact ih.cons _
    | some y =>
      rw [List.filterMap_cons_some hx, List.map_cons, List.map_cons, h x y hx]
      exact ih.cons_cons _

-- Members that are listed under their indices are found under them.
theorem filter_flatten_mapIdx {α β : Type} {f : Nat → α → List β} (key : β → Nat)
    (h : ∀ i x, ∀ y ∈ f i x, key y = i) (xs : List α) (i : Nat) :
    (xs.mapIdx f).flatten.filter (key · == i) = (xs[i]?.map (f i)).getD [] := by
  have hshift : ∀ (xs : List α) (k : Nat),
      ((xs.mapIdx fun j => f (j + k)).flatten.filter (key · == i + k)) =
        (xs[i]?.map (f (i + k))).getD [] := by
    intro xs k
    induction xs generalizing i k with
    | nil => rfl
    | cons x xs ih =>
      rw [List.mapIdx_cons, List.flatten_cons, List.filter_append]
      have hnext : (fun j => f (j + 1 + k)) = fun j => f (j + (k + 1)) := by
        funext j
        rw [Nat.add_right_comm, Nat.add_assoc]
      cases i with
      | zero =>
        have hfirst : (f (0 + k) x).filter (key · == 0 + k) = f (0 + k) x := by
          refine List.filter_eq_self.mpr ?_
          intro y hy
          simp [h _ _ y hy]
        have hrest : ((xs.mapIdx fun j => f (j + 1 + k)).flatten.filter (key · == 0 + k)) = [] := by
          refine List.filter_eq_nil_iff.mpr ?_
          intro y hy
          obtain ⟨ys, hys, hy⟩ := List.mem_flatten.mp hy
          obtain ⟨j, hj, rfl⟩ := List.mem_mapIdx.mp hys
          rw [h _ _ y hy, beq_iff_eq]
          omega
        rw [hfirst, hrest]
        simp
      | succ i =>
        have hfirst : (f (0 + k) x).filter (key · == i + 1 + k) = [] := by
          refine List.filter_eq_nil_iff.mpr ?_
          intro y hy
          rw [h _ _ y hy, beq_iff_eq]
          omega
        rw [hfirst, hnext, List.nil_append, List.getElem?_cons_succ, Nat.add_assoc, Nat.add_comm 1 k]
        exact ih i (k + 1)
  exact hshift xs 0

namespace JavaSource

section Fields

variable {text : List Char} {group : Nat} {declaration : Node} {f : Field}

theorem of_mem_readFields (h : f ∈ readFields text group declaration) :
    f.group = group ∧ f.declaration = declaration.span ∧
      ∃ n ∈ declaration.children, n.kind = .variableDeclarator ∧ f.declarator = n.span := by
  obtain ⟨n, hn, hf⟩ := List.mem_filterMap.mp h
  obtain ⟨name, -, heq⟩ := Option.bind_eq_some_iff.mp hf
  obtain ⟨hnamed, hkind⟩ := List.mem_filter.mp hn
  cases heq
  exact ⟨rfl, rfl, n, (List.mem_filter.mp hnamed).left, of_decide_eq_true hkind, rfl⟩

theorem map_declarator_readFields_sublist (text : List Char) (group : Nat) (declaration : Node) :
    ((readFields text group declaration).map (·.declarator)).Sublist
      (declaration.children.map (·.span)) := by
  refine (map_filterMap_sublist ?_ _).trans
    ((List.filter_sublist.trans List.filter_sublist).map _)
  intro n f hf
  obtain ⟨name, -, heq⟩ := Option.bind_eq_some_iff.mp hf
  cases heq
  rfl

-- Every variable of a declaration has a name, so that all of them are read.
theorem map_declarator_readFields (h : declaration.Sound text) (group : Nat) :
    (readFields text group declaration).map (·.declarator) =
      (declaration.children.filter (·.kind = .variableDeclarator)).map (·.span) := by
  have hnamed : declaration.namedChildren.filter (·.kind = .variableDeclarator) =
      declaration.children.filter (·.kind = .variableDeclarator) := by
    rw [Node.namedChildren, List.filter_filter]
    refine List.filter_congr fun n _ => ?_
    cases hkind : decide (n.kind = .variableDeclarator) with
    | false => rfl
    | true => simp [Node.isNamed, of_decide_eq_true hkind, Kind.isNamed]
  rw [readFields, hnamed, List.map_filterMap, ← List.filterMap_eq_map]
  refine List.filterMap_congr fun n hn => ?_
  obtain ⟨hmem, hkind⟩ := List.mem_filter.mp hn
  have hkind : n.kind = .variableDeclarator := of_decide_eq_true hkind
  have hsound := h.of_mem_children hmem
  have hshape := hsound.shape (hsound.children_ne_nil (by rw [hkind]))
  rw [hkind] at hshape
  obtain ⟨name, hname⟩ := Node.exists_child? hshape.left
  rw [hname]
  rfl

end Fields

-- The body of the primary class, and what has been read from it.
structure PrimaryBody (s : JavaSource) (body : Site) : Prop where
  found : s.classBody? = some body
  sound : body.node.Sound s.text
  isClassBody : body.node.IsClassBody
  span : s.model.body = body.span
  fields : s.model.fields =
    (body.node.namedChildren.mapIdx fun group member =>
      if member.kind = .fieldDeclaration then readFields s.text group member else []).flatten
  methods : ∀ m ∈ s.model.methods, ∃ member ∈ body.node.namedChildren,
    (member.kind = .methodDeclaration ∨ member.kind = .constructorDeclaration) ∧
      m = readMethod s.text (decide (member.kind = .constructorDeclaration)) member
  methodSpans : (s.model.methods.map (·.span)).Sublist (body.node.namedChildren.map (·.span))

theorem map_span_methods_sublist (text : List Char) (root declaration : Node) :
    ((readClass text root declaration).methods.map (·.span)).Sublist
      ((((declaration.child? .body).map (·.namedChildren)).getD []).map (·.span)) := by
  refine map_filterMap_sublist ?_ _
  intro member m hread
  split at hread
  case h_1 => cases hread; rfl
  case h_2 => cases hread; rfl
  case h_3 => cases hread

theorem mem_methods_readClass {text : List Char} {root declaration : Node} {m : Method}
    (h : m ∈ (readClass text root declaration).methods) :
    ∃ member ∈ ((declaration.child? .body).map (·.namedChildren)).getD [],
      (member.kind = .methodDeclaration ∨ member.kind = .constructorDeclaration) ∧
        m = readMethod text (decide (member.kind = .constructorDeclaration)) member := by
  obtain ⟨member, hmember, hread⟩ := List.mem_filterMap.mp h
  refine ⟨member, hmember, ?_⟩
  split at hread
  case h_1 hkind =>
    cases hread
    exact ⟨.inl hkind, by simp [hkind]⟩
  case h_2 hkind =>
    cases hread
    exact ⟨.inr hkind, by simp [hkind]⟩
  case h_3 => cases hread

-- A source for which what is read passes a check has been read.
theorem exists_parse_of_check (source : String) (check : JavaSource → Bool)
    (h : (parse source none).toOption.any check = true) :
    ∃ s, parse source none = .ok s ∧ check s = true := by
  cases hparse : parse source none with
  | error e =>
    rw [hparse] at h
    cases h
  | ok s =>
    rw [hparse] at h
    exact ⟨s, rfl, h⟩

-- The class that is found by its span is the one that has been read.
theorem exists_classSite_of_parse {source : String} {wanted : Option String} {s : JavaSource}
    (h : parse source wanted = .ok s) :
    s.text = source.toList ∧ ∃ declaration ∈ s.tree.namedChildren,
      s.classSite? = some ((Site.root s.tree).below declaration) ∧
        declaration.kind = .classDeclaration ∧ declaration.Sound s.text ∧
          s.model = readClass s.text s.tree declaration := by
  simp only [parse] at h
  split at h
  case h_1 => cases h
  case h_2 root hroot =>
    have hforest := forest_of_tree? hroot
    split at h
    case h_1 => cases h
    case h_2 declaration hdeclaration =>
      have htop : declaration ∈ topClasses root := by
        cases Option.or_eq_some_iff.mp hdeclaration with
        | inl hnamed =>
          obtain ⟨name, -, hfound⟩ := Option.bind_eq_some_iff.mp hnamed
          exact List.mem_of_find?_eq_some hfound
        | inr hhead => exact List.mem_of_head? hhead.right
      obtain ⟨hnamed, hkind⟩ := List.mem_filter.mp htop
      have hchild := (List.mem_filter.mp hnamed).left
      cases h
      refine ⟨rfl, declaration, hnamed, ?_, of_decide_eq_true hkind, hforest.sound _ hchild, rfl⟩
      change ((Site.root root).namedChildren.find? fun c =>
        c.kind = .classDeclaration ∧ c.span = declaration.span) =
          some ((Site.root root).below declaration)
      cases hfind : (Site.root root).namedChildren.find? fun c =>
        c.kind = .classDeclaration ∧ c.span = declaration.span with
      | none =>
        have hno := List.find?_eq_none.mp hfind _ (List.mem_map_of_mem hnamed)
        exact absurd (decide_eq_true ⟨of_decide_eq_true hkind, rfl⟩) hno
      | some c =>
        have htest := List.find?_some hfind
        obtain ⟨n, hn, rfl⟩ := List.mem_map.mp (List.mem_of_find?_eq_some hfind)
        have hspan : n.span = declaration.span := (of_decide_eq_true htest).right
        have hn' := (List.mem_filter.mp hn).left
        cases hforest.inOrder.eq_or_beside hn' hchild with
        | inl heq => rw [heq]
        | inr hbeside => exact absurd hspan (hbeside.ne (hforest.sound n hn').nonempty)

-- A class that has been read has a body, of which the members have been read.
theorem exists_primaryBody_of_parse {source : String} {wanted : Option String} {s : JavaSource}
    (h : parse source wanted = .ok s) : ∃ body, s.PrimaryBody body ∧ s.text = source.toList := by
  obtain ⟨htext, declaration, -, hsite, hkind, hsound, hmodel⟩ := exists_classSite_of_parse h
  have hshape := hsound.shape (hsound.children_ne_nil (by rw [hkind]))
  rw [hkind] at hshape
  obtain ⟨hsome, hbodies⟩ := hshape
  obtain ⟨n, hn⟩ := Node.exists_child? hsome
  have hmem := List.mem_of_find?_eq_some hn
  have hrole : n.role = some .body := by simpa using List.find?_some hn
  refine ⟨((Site.root s.tree).below declaration).below n, ?_, htext⟩
  exact {
    found := by
      rw [classBody?, hsite, Option.bind_some]
      exact Option.map_eq_some_iff.mpr ⟨n, hn, rfl⟩
    sound := hsound.of_mem_children hmem
    isClassBody := hbodies n hmem hrole
    span := by simp only [hmodel, readClass, hn, Option.map_some, Option.getD_some]; rfl
    fields := by simp only [hmodel, readClass, hn, Option.map_some, Option.getD_some]; rfl
    methods := by
      intro method hmethod
      rw [hmodel] at hmethod
      have hread := mem_methods_readClass hmethod
      rwa [hn] at hread
    methodSpans := by
      have hspans := map_span_methods_sublist s.text s.tree declaration
      rw [hn] at hspans
      rw [hmodel]
      exact hspans }

namespace PrimaryBody

variable {s : JavaSource} {body : Site} {member declaration : Node} {group : Nat} {f : Field}

theorem of_mem_children (h : s.PrimaryBody body) {n : Node} (hn : n ∈ body.node.children) :
    n.Sound s.text ∧ Text.Solid (Text.slice s.text n.span) := by
  have hsound := h.sound.of_mem_children hn
  exact ⟨hsound, hsound.solid (.inl (h.sound.whole (by rw [h.isClassBody.kind]) n hn))⟩

-- The members stand in the text in the order of their indices.
theorem stop_le_start {m n : Node} {i j : Nat} (h : s.PrimaryBody body)
    (hm : body.node.namedChildren[i]? = some m) (hn : body.node.namedChildren[j]? = some n)
    (hij : i < j) : m.span.stop ≤ n.span.start := by
  have hordered : body.node.namedChildren.Pairwise (·.span.stop ≤ ·.span.start) :=
    (List.pairwise_map.mp (h.sound.inOrder h.isClassBody.children).pairwise).sublist
      List.filter_sublist
  obtain ⟨hi, hmi⟩ := List.getElem?_eq_some_iff.mp hm
  obtain ⟨hj, hnj⟩ := List.getElem?_eq_some_iff.mp hn
  have hle := List.pairwise_iff_getElem.mp hordered i j hi hj hij
  rw [hmi, hnj] at hle
  exact hle

theorem index_unique {m : Node} {i j : Nat} (h : s.PrimaryBody body)
    (hi : body.node.namedChildren[i]? = some m) (hj : body.node.namedChildren[j]? = some m) :
    i = j := by
  have hmem := (List.mem_filter.mp (List.mem_of_getElem? hi)).left
  have hlt := (h.of_mem_children hmem).left.nonempty
  obtain heq | hne := Decidable.em (i = j)
  · exact heq
  · cases Nat.lt_or_gt_of_ne hne with
    | inl hij =>
      have := h.stop_le_start hi hj hij
      omega
    | inr hji =>
      have := h.stop_le_start hj hi hji
      omega

theorem member?_eq (h : s.PrimaryBody body) (hmember : member ∈ body.node.namedChildren) :
    s.member? member.span = some (body.below member) := by
  rw [JavaSource.member?, h.found, Option.bind_some]
  cases hfind : body.namedChildren.find? (·.span = member.span) with
  | none =>
    have hno := List.find?_eq_none.mp hfind (body.below member) (List.mem_map_of_mem hmember)
    exact absurd (decide_eq_true rfl) hno
  | some t =>
    obtain ⟨n, hn, rfl⟩ := List.mem_map.mp (List.mem_of_find?_eq_some hfind)
    have htest := List.find?_some hfind
    have hspan : n.span = member.span := of_decide_eq_true htest
    have hn' := (List.mem_filter.mp hn).left
    cases h.sound.eq_or_beside hn' (List.mem_filter.mp hmember).left with
    | inl heq => rw [heq]
    | inr hbeside => exact absurd hspan (hbeside.ne (h.sound.of_mem_children hn').nonempty)

theorem exists_declaration (h : s.PrimaryBody body) (hf : f ∈ s.model.fields) :
    ∃ declaration, body.node.namedChildren[f.group]? = some declaration ∧
      declaration.kind = .fieldDeclaration ∧
      f ∈ readFields s.text f.group declaration := by
  rw [h.fields] at hf
  obtain ⟨fs, hfs, hf⟩ := List.mem_flatten.mp hf
  obtain ⟨group, hgroup, rfl⟩ := List.mem_mapIdx.mp hfs
  split at hf
  case isTrue hkind =>
    have heq := (of_mem_readFields hf).left
    subst heq
    exact ⟨_, List.getElem?_eq_getElem hgroup, hkind, hf⟩
  case isFalse => cases hf

theorem fieldGroup_eq (h : s.PrimaryBody body)
    (hdeclaration : body.node.namedChildren[group]? = some declaration)
    (hkind : declaration.kind = .fieldDeclaration) :
    s.model.fieldGroup group = readFields s.text group declaration := by
  rw [ClassModel.fieldGroup, h.fields, filter_flatten_mapIdx Field.group, hdeclaration,
    Option.map_some, Option.getD_some, if_pos hkind]
  intro i x f hf
  split at hf
  case isTrue => exact (of_mem_readFields hf).left
  case isFalse => cases hf

end PrimaryBody

-- The text of a node is what stands at its span.
theorem toList_textOf {text : List Char} {n : Node} (h : n.Sound text) :
    (textOf text n).toList = Text.slice text n.span := by
  cases h with
  | leaf spelled => exact spelled.slice.symm
  | branch => exact String.toList_ofList

theorem span_covers_body {source : String} {wanted : Option String} {s : JavaSource} {body : Site}
    (h : parse source wanted = .ok s) (hbody : s.PrimaryBody body) :
    s.model.span.FitsIn s.text ∧ s.model.span.covers body.span = true := by
  obtain ⟨-, declaration, -, hsite, -, hsound, hmodel⟩ := exists_classSite_of_parse h
  have hspan : s.model.span = declaration.span := by rw [hmodel]; rfl
  have hfound := hbody.found
  rw [classBody?, hsite, Option.bind_some] at hfound
  obtain ⟨n, hn, rfl⟩ := Option.map_eq_some_iff.mp hfound
  rw [hspan]
  exact ⟨hsound.fits, hsound.covers_child (List.mem_of_find?_eq_some hn)⟩

-- The methods of a class that has been parsed stand in different places.
theorem eq_of_span_eq_of_parse {source : String} {wanted : Option String} {s : JavaSource}
    (h : parse source wanted = .ok s) {m n : Method} (hm : m ∈ s.model.methods)
    (hn : n ∈ s.model.methods) (hspan : m.span = n.span) : m = n := by
  obtain ⟨body, hprimary, -⟩ := exists_primaryBody_of_parse h
  obtain ⟨member, hmember, -, rfl⟩ := hprimary.methods m hm
  obtain ⟨other, hother, -, rfl⟩ := hprimary.methods n hn
  have hmember' := (List.mem_filter.mp hmember).left
  cases hprimary.sound.eq_or_beside hmember' (List.mem_filter.mp hother).left with
  | inl heq => rw [heq]
  | inr hbeside =>
    exact absurd hspan (hbeside.ne (hprimary.of_mem_children hmember').left.nonempty)

end JavaSource

end ClassSplit
