import ClassSplit.Proofs.Delegation.Reference
import ClassSplit.Proofs.Scope.Binding

/-!
Types nested in the primary class that declare a field of their own. A name that is declared by a
class or an interface around a site means the field of that type, and is neither a reference to the
primary class nor replaced. Main statement: `untouched_of_hasField`. The fields of an enum stand
behind its constants in a node of their own and the components of a record in front of its body;
neither is looked at, see `exists_redirected`.
-/

namespace ClassSplit

open Java

namespace JavaSource

variable {s : JavaSource} {n : Node} {name : String} {body site t u : Site}

-- One of the members declares a field of the name.
def HasField (s : JavaSource) (members : Node) (name : String) : Prop :=
  ∃ member ∈ members.namedChildren,
    (member.kind = .fieldDeclaration ∨ member.kind = .constantDeclaration) ∧
      ∃ v ∈ member.namedChildren, v.kind = .variableDeclarator ∧ s.declares v name = true

instance (members : Node) : Decidable (s.HasField members name) :=
  inferInstanceAs (Decidable (∃ member ∈ members.namedChildren,
    (member.kind = .fieldDeclaration ∨ member.kind = .constantDeclaration) ∧
      ∃ v ∈ member.namedChildren, v.kind = .variableDeclarator ∧ s.declares v name = true))

-- The type with a body has a field of the name, or is a record with such a component.
inductive TypeDeclares (s : JavaSource) (name : String) (t : Site) : Prop
  | field (kind : t.kind = .classBody ∨ t.kind = .interfaceBody) (declared : s.HasField t.node name)
  | enumField {members : Node} (kind : t.kind = .enumBody) (mem : members ∈ t.node.namedChildren)
      (behind : members.kind = .enumBodyDeclarations) (declared : s.HasField members name)
  | component {declaration : Site} {parameters parameter : Node} (kind : t.kind = .classBody)
      (parent : t.parent? = some declaration) (isRecord : declaration.kind = .recordDeclaration)
      (list : declaration.node.child? .parameters = some parameters)
      (mem : parameter ∈ parameters.namedChildren)
      (declared : (s.parameterBinding? parameter name).isSome = true)

section Binding

theorem isSome_declarationBinding?_iff : (s.declarationBinding? n name).isSome = true ↔
    ∃ v ∈ n.namedChildren, v.kind = .variableDeclarator ∧ s.declares v name = true := by
  rw [declarationBinding?]
  split
  case isTrue h => simpa [List.any_eq_true] using h
  case isFalse h => simpa [List.any_eq_true] using h

theorem isSome_fieldBinding?_iff :
    ((n.namedChildren.filter fun c =>
      c.kind = .fieldDeclaration || c.kind = .constantDeclaration).findSome?
        (s.declarationBinding? · name)).isSome = true ↔ s.HasField n name := by
  simp only [List.findSome?_isSome_iff, List.mem_filter, isSome_declarationBinding?_iff,
    Bool.or_eq_true, decide_eq_true_eq, HasField, and_assoc]

-- The body of a class or of an interface binds the names of its fields.
theorem isSome_constructBinding? (hkind : t.kind = .classBody ∨ t.kind = .interfaceBody)
    (h : s.HasField t.node name) (offset : Nat) :
    (s.constructBinding? t.node name offset).isSome = true := by
  unfold Site.kind at hkind
  obtain hclass | hinterface := hkind
  · rwa [constructBinding?, hclass, isSome_fieldBinding?_iff]
  · rwa [constructBinding?, hinterface, isSome_fieldBinding?_iff]

-- The search ends at the latest at a construct that binds the name, if it gets there.
theorem isSome_bindingWithin? {inner outer : List Site}
    (hinner : ∀ around ∈ inner, s.isPrimaryBody around.node = false)
    (ht : s.isPrimaryBody t.node = false)
    (hbound : (s.constructBinding? t.node name site.span.start).isSome = true) :
    (s.bindingWithin? site name (inner ++ t :: outer)).isSome = true := by
  induction inner with
  | nil =>
    obtain ⟨b, hb⟩ := Option.isSome_iff_exists.mp hbound
    rw [List.nil_append, bindingWithin?, ht, hb]
    rfl
  | cons around inner ih =>
    have hrest := ih fun u hu => hinner u (List.mem_cons_of_mem around hu)
    rw [List.cons_append, bindingWithin?, hinner around List.mem_cons_self, if_neg (by decide)]
    split
    case h_1 => rfl
    case h_2 => exact hrest

end Binding

section Primary

-- The body of the primary class is the only node in it with its kind and span.
theorem PrimaryBody.eq_of_isPrimaryBody (hbody : s.PrimaryBody body) (hu : u ∈ body.preorder)
    (hprimary : s.isPrimaryBody u.node = true) : u = body := by
  have hshape := hbody.sound.shape hbody.isClassBody.children
  rw [hbody.isClassBody.kind] at hshape
  obtain ⟨brace, hbrace, hmark, -⟩ := hshape
  simp only [isPrimaryBody, Bool.and_eq_true, decide_eq_true_eq] at hprimary
  have hsound := Site.sound_of_mem_preorder hbody.sound hu
  have hnotMark : u.node.isMark = false := by
    cases hmark : u.node.isMark with
    | false => rfl
    | true =>
      have hne := hsound.children_ne_nil (by rw [hprimary.left])
      exact absurd (Site.children_of_isMark hmark) hne
  exact Site.eq_of_span_eq_of_isMark hbody.sound hu (hprimary.right.trans hbody.span)
    (List.mem_of_head? hbrace) hmark hnotMark

theorem PrimaryBody.isPrimaryBody_eq_false (hbody : s.PrimaryBody body) (ht : t ∈ body.preorder)
    (hne : t ≠ body) (hu : u ∈ t.preorder) : s.isPrimaryBody u.node = false := by
  cases hprimary : s.isPrimaryBody u.node with
  | false => rfl
  | true =>
    obtain rfl := hbody.eq_of_isPrimaryBody (Site.mem_preorder_trans ht hu) hprimary
    exact absurd (Site.preorder_antisymm ht hu) hne

end Primary

section Shadowing

-- Of the constructs around a site in a nested type, those up to the type stand below the primary
-- class, so that the search gets to the type.
theorem isSome_localBinding?_of_hasField (hbody : s.PrimaryBody body) (ht : t ∈ body.preorder)
    (hne : t ≠ body) (hkind : t.kind = .classBody ∨ t.kind = .interfaceBody)
    (hfield : s.HasField t.node name) (hsite : site ∈ t.preorder) (hbelow : site ≠ t) :
    (s.localBinding? site name).isSome = true := by
  obtain ⟨inner, hancestors, hinner⟩ := exists_ancestors_eq hsite hbelow
  rw [localBinding?, hancestors]
  have hbound := isSome_constructBinding? hkind hfield site.span.start
  refine isSome_bindingWithin? (fun around haround => ?_) ?_ hbound
  · exact hbody.isPrimaryBody_eq_false ht hne (hinner around haround).inside
  · exact hbody.isPrimaryBody_eq_false ht hne (Site.self_mem_preorder t)

theorem fieldReference?_eq_none_of_localBinding? (hkind : site.kind = .identifier)
    (h : (s.localBinding? site (s.textAt site)).isSome = true) :
    s.fieldReference? site = none := by
  rw [fieldReference?, hkind]
  cases hfield : s.model.field? (s.spelling site.node) with
  | none => rfl
  | some field =>
    have hname : field.name = s.spelling site.node := by simpa using List.find?_some hfield
    change (s.localBinding? site (s.spelling site.node)).isSome = true at h
    simp [hname, h]

end Shadowing

end JavaSource

namespace Delegation

variable {s : JavaSource} {d : Delegation} {site t u : Site} {changed : List Span}

-- What is no reference is neither read nor changed.
theorem siteReplacements_eq_nil (hkind : site.kind = .identifier)
    (h : d.source.fieldReference? site = none) : d.siteReplacements changed site = .ok [] := by
  have htarget : target? site = none := by rw [target?, hkind]
  have hmoved : d.movedField? site = none := by rw [movedField?, h]; rfl
  rw [siteReplacements, changeReplacements, htarget, hmoved]
  exact ite_self _

theorem changedReference?_ne_some (h : d.source.fieldReference? site = none) (u : Site) :
    d.changedReference? u ≠ some site := by
  intro hchanged
  obtain ⟨-, hinstance⟩ := changedReference?_eq_some.mp hchanged
  rw [movedInstance?, movedField?, h] at hinstance
  cases hinstance

-- A name that a nested class or interface declares as a field is left as it is in that type.
theorem untouched_of_hasField {source : String} {wanted : Option String} {body : Site}
    (hparse : JavaSource.parse source wanted = .ok s) (hbody : s.classBody? = some body)
    (ht : t ∈ body.preorder) (hne : t ≠ body)
    (hkind : t.kind = .classBody ∨ t.kind = .interfaceBody) (hsite : site ∈ t.preorder)
    (hidentifier : site.kind = .identifier) (hfield : s.HasField t.node (s.textAt site)) :
    s.fieldReference? site = none ∧ ∀ d : Delegation, d.source = s →
      (∀ changed, d.siteReplacements changed site = .ok []) ∧
        ∀ u, d.changedReference? u ≠ some site := by
  obtain ⟨body', hprimary, -⟩ := JavaSource.exists_primaryBody_of_parse hparse
  obtain rfl : body' = body := Option.some.inj (hprimary.found.symm.trans hbody)
  have hbelow : site ≠ t := by
    rintro rfl
    rw [hidentifier] at hkind
    obtain hkind | hkind := hkind <;> cases hkind
  have hbound :=
    JavaSource.isSome_localBinding?_of_hasField hprimary ht hne hkind hfield hsite hbelow
  have hnone := JavaSource.fieldReference?_eq_none_of_localBinding? hidentifier hbound
  refine ⟨hnone, ?_⟩
  rintro d rfl
  exact ⟨fun changed => siteReplacements_eq_nil hidentifier hnone, changedReference?_ne_some hnone⟩

def nestedSource : String :=
  "class A\x7bboolean x;class B\x7bboolean x;boolean m()\x7breturn x;\x7d\x7d\x7d"

theorem untouched_of_hasField_nested : ∃ s body t site,
    JavaSource.parse nestedSource none = .ok s ∧ s.classBody? = some body ∧ t ∈ body.preorder ∧
      t ≠ body ∧ site ∈ t.preorder ∧ s.textAt site = "x" ∧ isExpressionName site = true ∧
        (s.model.field? "x").isSome = true ∧ s.fieldReference? site = none := by
  obtain ⟨s, hparse, hcheck⟩ := JavaSource.exists_parse_of_check nestedSource
    (fun s => (s.model.field? "x").isSome && s.classBody?.any fun body =>
      body.preorder.any fun t => t.kind = .classBody && t.span ≠ body.span &&
        decide (s.HasField t.node "x") && t.preorder.any fun site =>
          site.kind = .identifier && s.textAt site == "x" && isExpressionName site)
    (by decide +kernel)
  simp only [Bool.and_eq_true, Option.any_eq_true, List.any_eq_true, decide_eq_true_eq,
    beq_iff_eq] at hcheck
  obtain ⟨houter, body, hbody, t, ht, ⟨⟨hkind, hspan⟩, hfield⟩, site, hsite,
    ⟨hidentifier, htext⟩, hname⟩ := hcheck
  have hne : t ≠ body := fun heq => hspan (heq ▸ rfl)
  have hfield : s.HasField t.node (s.textAt site) := htext ▸ hfield
  exact ⟨s, body, t, site, hparse, hbody, ht, hne, hsite, htext, hname, houter,
    (untouched_of_hasField hparse hbody ht hne (.inl hkind) hsite hidentifier hfield).left⟩

-- A name that a nested type declares is taken, in that type, for a field of the primary class.
structure Redirected (s : JavaSource) (body t site : Site) : Prop where
  nested : t ∈ body.preorder ∧ t ≠ body
  declared : s.TypeDeclares (s.textAt site) t
  inside : site ∈ t.preorder ∧ site.kind = .identifier
  taken : (s.fieldReference? site).isSome = true

def redirectedSource : String :=
  "class A\x7bboolean x;enum E\x7bP;boolean x;boolean m()\x7breturn x;\x7d\x7d" ++
    "record R(boolean x)\x7bboolean m()\x7breturn x;\x7d\x7d\x7d"

def isRedirectedName (s : JavaSource) (site : Site) : Bool :=
  site.kind = .identifier && s.textAt site == "x" && (s.fieldReference? site).isSome

-- The fields of an enum and the components of a record are not seen.
theorem exists_redirected : ∃ s body,
    JavaSource.parse redirectedSource none = .ok s ∧ s.classBody? = some body ∧
      (∃ t site, t.kind = .enumBody ∧ Redirected s body t site) ∧
        ∃ t site, t.kind = .classBody ∧ Redirected s body t site := by
  obtain ⟨s, hparse, hcheck⟩ := JavaSource.exists_parse_of_check redirectedSource
    (fun s => s.classBody?.any fun body =>
      (body.preorder.any fun t => t.kind = .enumBody && t.span ≠ body.span &&
        (t.node.namedChildren.any fun members =>
          members.kind = .enumBodyDeclarations && decide (s.HasField members "x")) &&
        t.preorder.any (isRedirectedName s)) &&
      body.preorder.any fun t => t.kind = .classBody && t.span ≠ body.span &&
        (t.parent?.any fun declaration => declaration.kind = .recordDeclaration &&
          (declaration.node.child? .parameters).any fun parameters =>
            parameters.namedChildren.any fun c => (s.parameterBinding? c "x").isSome) &&
        t.preorder.any (isRedirectedName s))
    (by decide +kernel)
  simp only [isRedirectedName, Bool.and_eq_true, Option.any_eq_true, List.any_eq_true,
    decide_eq_true_eq, beq_iff_eq] at hcheck
  obtain ⟨body, hbody, ⟨t, ht, ⟨⟨hkind, hspan⟩, members, hmembers, hbehind, hfield⟩, site, hsite,
    ⟨hidentifier, htext⟩, href⟩, hrecord⟩ := hcheck
  obtain ⟨r, hr, ⟨⟨hrkind, hrspan⟩, declaration, hparent, hisRecord, parameters, hlist, c, hc,
    hcomponent⟩, site', hsite', ⟨hidentifier', htext'⟩, href'⟩ := hrecord
  refine ⟨s, body, hparse, hbody, ⟨t, site, hkind, ?_⟩, r, site', hrkind, ?_⟩
  · exact ⟨⟨ht, fun heq => hspan (heq ▸ rfl)⟩, htext ▸ .enumField hkind hmembers hbehind hfield,
      ⟨hsite, hidentifier⟩, href⟩
  · exact ⟨⟨hr, fun heq => hrspan (heq ▸ rfl)⟩,
      htext' ▸ .component hrkind hparent hisRecord hlist hc hcomponent, ⟨hsite', hidentifier'⟩,
      href'⟩

end Delegation

end ClassSplit
