import ClassSplit.Proofs.Model.OfTree
import ClassSplit.Scope.Binding

/-!
Where the names of local declarations stand. A name that is bound at a site inside the primary class
is the text of a node of its body. Main statement: `exists_textAt_of_localBinding?`.
-/

namespace ClassSplit

open Java

namespace JavaSource

variable {s : JavaSource} {n c : Node} {name : String} {offset : Nat} {b : Binding}
  {site around body : Site}

-- A node has the name as its text, or something in it has.
def Mentions (s : JavaSource) (name : String) (n : Node) : Prop :=
  ∀ above, ∃ t ∈ (Site.mk n above).preorder, s.textAt t = name

section Mentions

theorem mentions_of_spelling (h : s.spelling n = name) : s.Mentions name n :=
  fun above => ⟨⟨n, above⟩, Site.self_mem_preorder _, h⟩

theorem mentions_of_mem_children (hc : c ∈ n.children) (h : s.Mentions name c) :
    s.Mentions name n := by
  intro above
  obtain ⟨t, ht, htext⟩ := h (n :: above)
  exact ⟨t, Site.mem_preorder.mpr (.inr ⟨_, Site.mem_children.mpr ⟨c, hc, rfl⟩, ht⟩), htext⟩

theorem mentions_of_mem_namedChildren (hc : c ∈ n.namedChildren) (h : s.Mentions name c) :
    s.Mentions name n :=
  mentions_of_mem_children (List.mem_filter.mp hc).left h

theorem mentions_of_child? {role : Role} (hc : n.child? role = some c) (h : s.Mentions name c) :
    s.Mentions name n :=
  mentions_of_mem_children (List.mem_of_find?_eq_some hc) h

theorem mentions_of_declares (h : s.declares n name = true) : s.Mentions name n := by
  obtain ⟨c, hc, htext⟩ := (Option.any_eq_true _ _).mp h
  exact mentions_of_child? hc (mentions_of_spelling (by simpa using htext))

-- Some of the named children bind the name.
theorem mentions_of_findSome? {p : Node → Bool} {bind : Node → Option Binding}
    (hbind : ∀ c, bind c = some b → s.Mentions name c)
    (h : (n.namedChildren.filter p).findSome? bind = some b) : s.Mentions name n := by
  obtain ⟨c, hc, hbound⟩ := List.exists_of_findSome?_eq_some h
  exact mentions_of_mem_namedChildren (List.mem_filter.mp hc).left (hbind c hbound)

end Mentions

section Construct

theorem mentions_of_declarationBinding? (h : s.declarationBinding? n name = some b) :
    s.Mentions name n := by
  rw [declarationBinding?] at h
  split at h
  case isFalse => cases h
  case isTrue hany =>
    obtain ⟨c, hc, hdeclares⟩ := List.any_eq_true.mp hany
    exact mentions_of_mem_namedChildren hc
      (mentions_of_declares (Bool.and_eq_true_iff.mp hdeclares).right)

theorem mentions_of_blockBinding? (h : s.blockBinding? n name offset = some b) :
    s.Mentions name n :=
  mentions_of_findSome? (fun _ => mentions_of_declarationBinding?) h

theorem mentions_of_parameterBinding? (h : s.parameterBinding? n name = some b) :
    s.Mentions name n := by
  rw [parameterBinding?] at h
  split at h
  case h_1 =>
    split at h
    case isTrue hdeclares => exact mentions_of_declares hdeclares
    case isFalse => cases h
  case h_2 =>
    split at h
    case isTrue hany =>
      obtain ⟨c, hc, hdeclares⟩ := (Option.any_eq_true _ _).mp hany
      exact mentions_of_mem_namedChildren (List.mem_of_find?_eq_some hc)
        (mentions_of_declares hdeclares)
    case isFalse => cases h
  case h_3 => cases h

theorem mentions_of_parametersBinding? (h : s.parametersBinding? n name = some b) :
    s.Mentions name n := by
  obtain ⟨c, hc, hbound⟩ := List.exists_of_findSome?_eq_some h
  exact mentions_of_mem_namedChildren hc (mentions_of_parameterBinding? hbound)

theorem mentions_of_lambdaBinding? (h : s.lambdaBinding? n name = some b) :
    s.Mentions name n := by
  rw [lambdaBinding?] at h
  split at h
  case h_1 =>
    split at h
    case isTrue htext => exact mentions_of_spelling (by simpa using htext)
    case isFalse => cases h
  case h_2 =>
    split at h
    case isTrue hany =>
      obtain ⟨c, hc, htext⟩ := List.any_eq_true.mp hany
      exact mentions_of_mem_namedChildren hc (mentions_of_spelling (by simpa using htext))
    case isFalse => cases h
  case h_3 => exact mentions_of_parametersBinding? h

theorem mentions_of_caseBinding? (h : s.caseBinding? n name = some b) : s.Mentions name n := by
  simp only [caseBinding?] at h
  obtain ⟨p, hp, -⟩ := Option.map_eq_some_iff.mp h
  have htest := List.find?_some hp
  obtain ⟨last, hlast, htext⟩ := (Option.any_eq_true _ _).mp htest
  have hpattern := List.mem_of_find?_eq_some hp
  simp only [List.mem_filter, List.mem_flatMap, List.mem_singleton] at hpattern
  obtain ⟨⟨pattern, ⟨⟨label, ⟨⟨_, rfl, hlabel⟩, -⟩, hpattern⟩, -⟩, hchild⟩, -⟩ := hpattern
  refine mentions_of_mem_namedChildren hlabel (mentions_of_mem_namedChildren hpattern
    (mentions_of_mem_namedChildren hchild (mentions_of_mem_namedChildren
      (List.mem_of_getLast? hlast) (mentions_of_spelling ?_))))
  simpa using htext

theorem mentions_of_catchBinding? (h : s.catchBinding? n name = some b) :
    s.Mentions name n := by
  rw [catchBinding?] at h
  split at h
  case h_1 => cases h
  case h_2 parameter hparameter =>
    split at h
    case isTrue hdeclares =>
      exact mentions_of_mem_namedChildren (List.mem_of_find?_eq_some hparameter)
        (mentions_of_declares hdeclares)
    case isFalse => cases h

theorem mentions_of_constructBinding? (h : s.constructBinding? n name offset = some b) :
    s.Mentions name n := by
  rw [constructBinding?] at h
  split at h
  case h_1 | h_2 => exact mentions_of_blockBinding? h
  case h_3 =>
    obtain hblock | ⟨-, hcase⟩ := Option.or_eq_some_iff.mp h
    · exact mentions_of_blockBinding? hblock
    · exact mentions_of_caseBinding? hcase
  case h_4 => exact mentions_of_caseBinding? h
  case h_5 => exact mentions_of_findSome? (fun _ => mentions_of_blockBinding?) h
  case h_6 | h_7 =>
    obtain ⟨c, hc, hbound⟩ := Option.bind_eq_some_iff.mp h
    exact mentions_of_child? hc (mentions_of_parametersBinding? hbound)
  case h_8 =>
    obtain ⟨c, hc, hbound⟩ := Option.bind_eq_some_iff.mp h
    exact mentions_of_child? hc (mentions_of_lambdaBinding? hbound)
  case h_9 => exact mentions_of_findSome? (fun _ => mentions_of_declarationBinding?) h
  case h_10 =>
    split at h
    case isTrue hdeclares => exact mentions_of_declares hdeclares
    case isFalse => cases h
  case h_11 => exact mentions_of_catchBinding? h
  case h_12 =>
    obtain ⟨resources, hresources, hbound⟩ := Option.bind_eq_some_iff.mp h
    obtain ⟨c, hc, -⟩ := Option.map_eq_some_iff.mp hbound
    have hdeclares := List.find?_some hc
    have hmem := (List.mem_filter.mp (List.mem_of_find?_eq_some hc)).left
    exact mentions_of_child? hresources
      (mentions_of_mem_namedChildren hmem (mentions_of_declares hdeclares))
  case h_13 | h_14 | h_15 => exact mentions_of_findSome? (fun _ => mentions_of_declarationBinding?) h
  case h_16 => cases h

end Construct

section Site

theorem exists_textAt_of_patternBinding? (h : s.patternBinding? around site name = some b) :
    ∃ t ∈ around.preorder, s.textAt t = name := by
  obtain ⟨test, htest, -⟩ := Option.map_eq_some_iff.mp h
  have hfound := List.find?_some htest
  simp only [Bool.and_eq_true] at hfound
  obtain ⟨t, ht, htext⟩ := mentions_of_declares hfound.left.right test.above
  exact ⟨t, Site.mem_preorder_trans (List.mem_of_find?_eq_some htest) ht, htext⟩

-- One of the constructs that are searched has the name in it.
theorem exists_textAt_of_bindingWithin? {inner outer : List Site}
    (hbody : s.isPrimaryBody body.node = true)
    (h : s.bindingWithin? site name (inner ++ body :: outer) = some b) :
    ∃ around ∈ inner, ∃ t ∈ around.preorder, s.textAt t = name := by
  induction inner with
  | nil =>
    rw [List.nil_append, bindingWithin?, if_pos hbody] at h
    cases h
  | cons around inner ih =>
    rw [List.cons_append, bindingWithin?] at h
    split at h
    case isTrue => cases h
    case isFalse =>
      split at h
      case h_1 binding hbound =>
        refine ⟨around, List.mem_cons_self, ?_⟩
        obtain hconstruct | ⟨-, hpattern⟩ := Option.or_eq_some_iff.mp hbound
        · exact mentions_of_constructBinding? hconstruct around.above
        · split at hpattern
          case isTrue => exact exists_textAt_of_patternBinding? hpattern
          case isFalse => cases hpattern
      case h_2 =>
        obtain ⟨around', haround, hfound⟩ := ih h
        exact ⟨around', List.mem_cons_of_mem around haround, hfound⟩

-- A construct in the body, with a site in it.
structure Between (body site around : Site) : Prop where
  inside : around ∈ body.preorder
  ne : around ≠ body
  mem : site ∈ around.preorder

theorem exists_path (h : site ∈ body.preorder) : ∃ inner,
    site :: site.ancestors = inner ++ body :: body.ancestors ∧
      ∀ t ∈ inner, Between body site t := by
  induction body using Site.below_induction with
  | step body ih =>
    cases Site.mem_preorder.mp h with
    | inl heq => exact ⟨[], heq ▸ rfl, by simp⟩
    | inr hbelow =>
      obtain ⟨c, hc, hsite⟩ := hbelow
      obtain ⟨inner, hancestors, hinner⟩ := ih c hc hsite
      obtain ⟨n, -, rfl⟩ := Site.mem_children.mp hc
      have hchild := Site.mem_preorder_of_mem_children hc
      have houtside := Site.not_mem_preorder_of_mem_children hc
      refine ⟨inner ++ [body.below n], ?_, fun t ht => ?_⟩
      · rw [hancestors, List.append_assoc, List.singleton_append]
        rfl
      · obtain ht | ht := List.mem_append.mp ht
        · have hbetween := hinner t ht
          refine ⟨Site.mem_preorder_trans hchild hbetween.inside, ?_, hbetween.mem⟩
          rintro rfl
          exact houtside hbetween.inside
        · obtain rfl := List.mem_singleton.mp ht
          exact ⟨hchild, fun heq => houtside (Site.mem_preorder.mpr (.inl heq.symm)), hsite⟩

-- The constructs around a site stand one in another, from the innermost one to the body.
theorem exists_ancestors_eq (h : site ∈ body.preorder) (hne : site ≠ body) : ∃ inner,
    site.ancestors = inner ++ body :: body.ancestors ∧ ∀ t ∈ inner, Between body site t := by
  obtain ⟨path, hpath, hbetween⟩ := exists_path h
  cases path with
  | nil => exact absurd (List.cons.inj hpath).left hne
  | cons first inner =>
    exact ⟨inner, (List.cons.inj hpath).right, fun t ht =>
      hbetween t (List.mem_cons_of_mem first ht)⟩

theorem PrimaryBody.isPrimaryBody_self (hbody : s.PrimaryBody body) :
    s.isPrimaryBody body.node = true := by
  rw [isPrimaryBody, hbody.isClassBody.kind, hbody.span]
  simp [Site.span]

theorem exists_textAt_of_localBinding? {member : Node} (hbody : s.PrimaryBody body)
    (hmember : member ∈ body.node.children) (hsite : site ∈ (body.below member).preorder)
    (h : s.localBinding? site name = some b) : ∃ t ∈ body.preorder, s.textAt t = name := by
  have hchild := Site.mem_children.mpr ⟨member, hmember, rfl⟩
  have hmem := Site.mem_preorder_trans (Site.mem_preorder_of_mem_children hchild) hsite
  have hne : site ≠ body := by
    rintro rfl
    exact Site.not_mem_preorder_of_mem_children hchild hsite
  obtain ⟨inner, hancestors, hinner⟩ := exists_ancestors_eq hmem hne
  rw [localBinding?, hancestors] at h
  obtain ⟨around, haround, t, ht, htext⟩ :=
    exists_textAt_of_bindingWithin? hbody.isPrimaryBody_self h
  exact ⟨t, Site.mem_preorder_trans (hinner around haround).inside ht, htext⟩

end Site

end JavaSource

end ClassSplit
