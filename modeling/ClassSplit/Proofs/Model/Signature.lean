import ClassSplit.Proofs.Model.Lookup
import ClassSplit.Proofs.Signature.Spelling

/-!
The signatures that are read from a source. The name of a method is an identifier, and the types of
its parameters are written without superfluous blanks, so that the signature of the method is the
canonical form of a tidy one. A text that closes its brackets in turn then denotes the method that
it matches. Main statements: `exists_denotes_of_parse` and `findMethod?_of_match`.
-/

namespace ClassSplit

open Java Text Signature

namespace Signature

-- A signature as it stands for a method: under the method's name, with nothing superfluous.
structure Denotes (y : Signature) (m : Method) : Prop where
  tidy : y.Tidy
  name : y.name = m.name
  signature : m.signature = y.canonicalForm

theorem Denotes.name_ofString {y : Signature} {m : Method} (hy : y.Denotes m) :
    (ofString m.signature).name = m.name := by
  rw [hy.signature, hy.tidy.ofString_canonicalForm, hy.name]

-- Methods with different names have no spelling in common.
theorem Denotes.name_eq_of_mem_forms {y z : Signature} {m n : Method} {f : String}
    (hy : y.Denotes m) (hz : z.Denotes n) (hm : f ∈ (ofString m.signature).forms)
    (hn : f ∈ (ofString n.signature).forms) : m.name = n.name := by
  have hplain {y : Signature} {m : Method} (hy : y.Denotes m) :
      ∀ c ∈ (ofString m.signature).name.toList, isPlain c = true := by
    rw [hy.name_ofString, ← hy.name]
    exact hy.tidy.name
  obtain ⟨us, rfl, -⟩ := spells_of_mem_forms hm
  obtain ⟨vs, heq, -⟩ := spells_of_mem_forms hn
  rw [← hy.name_ofString, ← hz.name_ofString]
  exact (render_inj (hplain hy) (hplain hz) heq).left

theorem Denotes.signaturesMatch_iff {y : Signature} {m : Method} {text : String}
    (hy : y.Denotes m) (hw : WellNested text) :
    signaturesMatch m.signature text = true ↔
      (ofString m.signature).bareForm = (ofString text).bareForm := by
  rw [signaturesMatch, hy.signature]
  exact agrees_iff_bareForm_eq hy.tidy hw.nested

theorem signaturesMatch_comm (a b : String) : signaturesMatch a b = signaturesMatch b a := by
  rw [Bool.eq_iff_iff, signaturesMatch, signaturesMatch, agrees_iff_exists, agrees_iff_exists]
  exact or_congr eq_comm (exists_congr fun _ => and_comm)

theorem signaturesMatch_of_bareForm_eq {a b : String}
    (h : (ofString a).bareForm = (ofString b).bareForm) : signaturesMatch a b = true :=
  agrees_iff_exists.mpr (.inr (exists_common_form h))

theorem isPlain_of_isIdentifierPart {c : Char} (h : isIdentifierPart c = true) :
    isPlain c = true :=
  isPlain_iff.mpr ⟨isBlank_eq_false_of_isIdentifierPart h,
    ne_of_isIdentifierPart h '(' (by decide +kernel),
    ne_of_isIdentifierPart h '.' (by decide +kernel)⟩

theorem isTight_brackets (n : Nat) : isTight false (brackets n).toList = true := by
  refine isTight_of_no_blank ?_
  intro c hc
  rw [ParamType.toList_brackets] at hc
  obtain ⟨pair, hpair, hc⟩ := List.mem_flatten.mp hc
  rw [List.eq_of_mem_replicate hpair] at hc
  obtain rfl | rfl : c = '[' ∨ c = ']' := by simpa using hc
  all_goals decide

end Signature

namespace JavaSource

variable {source : String} {wanted : Option String} {s : JavaSource} {m : Method} {text : List Char}
  {n declaration : Node} {p : Parameter}

theorem isTight_typeTextOf (text : List Char) (n : Node) :
    isTight false (typeTextOf text n).toList = true := by
  rw [typeTextOf, String.toList_ofList]
  exact isTight_collapseType _

theorem isTight_dimensionsOf (text : List Char) (n : Node) :
    isTight false (dimensionsOf text n).toList = true := by
  rw [dimensionsOf]
  split
  · rfl
  · exact isTight_brackets _

theorem isTight_of_readParameter? (h : readParameter? text n = some p) :
    isTight false p.type.toList = true := by
  rw [readParameter?] at h
  split at h
  case h_1 =>
    obtain ⟨type, -, h⟩ := Option.bind_eq_some_iff.mp h
    obtain ⟨name, -, h⟩ := Option.bind_eq_some_iff.mp h
    cases h
    rw [String.toList_append]
    exact isTight_append (isTight_typeTextOf _ _) (isTight_dimensionsOf _ _)
  case h_2 =>
    obtain ⟨type, -, h⟩ := Option.bind_eq_some_iff.mp h
    obtain ⟨declarator, -, h⟩ := Option.bind_eq_some_iff.mp h
    obtain ⟨name, -, h⟩ := Option.bind_eq_some_iff.mp h
    cases h
    exact isTight_typeTextOf _ _
  case h_3 => cases h

theorem isTight_of_mem_readParameters (h : p ∈ readParameters text declaration) :
    isTight false p.type.toList = true := by
  rw [readParameters] at h
  split at h
  case h_1 => cases h
  case h_2 =>
    obtain ⟨n, -, hn⟩ := List.mem_filterMap.mp h
    exact isTight_of_readParameter? hn

-- An identifier in a source is a token, and its text has nothing but the parts of identifiers.
theorem isPlain_of_mem_textOf (h : n.Sound text) (hkind : n.kind = .identifier) :
    ∀ c ∈ (textOf text n).toList, isPlain c = true := by
  cases h with
  | leaf spelled solid mark atomic identifier =>
    exact fun c hc => isPlain_of_isIdentifierPart (identifier hkind c hc)
  | branch _ _ _ _ _ shape =>
    rw [Node.kind] at hkind
    subst hkind
    exact absurd shape (Node.not_shape_of_isWord rfl _)

theorem isPlain_of_isVariableName (h : n.Sound text) (hname : n.IsVariableName) :
    ∀ c ∈ (textOf text n).toList, isPlain c = true := by
  obtain hkind | hword := hname
  · exact isPlain_of_mem_textOf h hkind
  · cases n with
    | leaf kind role span word =>
      obtain rfl : word = "_" := hword
      have hplain : "_".toList.all isPlain = true := by decide
      exact List.all_eq_true.mp hplain
    | branch =>
      change "" = "_" at hword
      exact absurd hword (by decide)

theorem isPlain_of_mem_readFields {group : Nat} {f : Field} (h : declaration.Sound text)
    (hf : f ∈ readFields text group declaration) : ∀ c ∈ f.name.toList, isPlain c = true := by
  obtain ⟨declarator, hmem, hf⟩ := List.mem_filterMap.mp hf
  obtain ⟨name, hname, heq⟩ := Option.bind_eq_some_iff.mp hf
  cases heq
  obtain ⟨hnamed, hkind⟩ := List.mem_filter.mp hmem
  have hkind : declarator.kind = .variableDeclarator := of_decide_eq_true hkind
  have hsound := h.of_mem_children (List.mem_filter.mp hnamed).left
  have hshape := hsound.shape (hsound.children_ne_nil (by rw [hkind]))
  rw [hkind] at hshape
  have hchild := List.mem_of_find?_eq_some hname
  have hrole : name.role = some .name := by simpa using List.find?_some hname
  exact isPlain_of_isVariableName (hsound.of_mem_children hchild) (hshape.right name hchild hrole)

-- The name of a field is one word without dots and parentheses.
theorem isPlain_of_mem_fields {f : Field} (h : parse source wanted = .ok s)
    (hf : f ∈ s.model.fields) : ∀ c ∈ f.name.toList, isPlain c = true := by
  obtain ⟨body, hbody, -⟩ := exists_primaryBody_of_parse h
  obtain ⟨declaration, hdeclaration, -, hf⟩ := hbody.exists_declaration hf
  have hmem := (List.mem_filter.mp (List.mem_of_getElem? hdeclaration)).left
  exact isPlain_of_mem_readFields (hbody.sound.of_mem_children hmem) hf

theorem exists_name_of_methodDeclaration (h : declaration.Sound text)
    (hkind : declaration.kind = .methodDeclaration) :
    ∃ n, declaration.child? .name = some n ∧ ∀ c ∈ (textOf text n).toList, isPlain c = true := by
  have hshape := h.shape (h.children_ne_nil (by rw [hkind]))
  rw [hkind] at hshape
  obtain ⟨hnamed, hkinds, -⟩ := hshape
  obtain ⟨n, hn⟩ := Node.exists_child? hnamed
  have hmem := List.mem_of_find?_eq_some hn
  have hrole : n.role = some .name := by simpa using List.find?_some hn
  exact ⟨n, hn, isPlain_of_mem_textOf (h.of_mem_children hmem) (hkinds n hmem hrole)⟩

theorem exists_denotes_readMethod (h : declaration.Sound text)
    (hkind : declaration.kind = .methodDeclaration) :
    ∃ y : Signature, y.Denotes (readMethod text false declaration) := by
  obtain ⟨n, hn, hname⟩ := exists_name_of_methodDeclaration h hkind
  let types := (readParameters text declaration).map fun p =>
    p.type ++ (if p.variadic then "..." else "")
  have htypes : isTight false ([','].intercalate (types.map String.toList)) = true := by
    refine isTight_intercalate ?_
    intro part hpart
    obtain ⟨type, htype, rfl⟩ := List.mem_map.mp hpart
    obtain ⟨p, hp, rfl⟩ := List.mem_map.mp htype
    rw [String.toList_append]
    refine isTight_append (isTight_of_mem_readParameters hp) ?_
    split
    all_goals decide +kernel
  refine ⟨⟨textOf text n, readParams ([','].intercalate (types.map String.toList))⟩, ?_, ?_, ?_⟩
  · simpa using tidy_of_isTight hname htypes
  · simp [readMethod, hn]
  · have hread := ofText_call hname ([','].intercalate (types.map String.toList))
    rw [String.ofList_toList] at hread
    rw [← hread]
    simp only [readMethod, hn, Option.map_some, Option.getD_some, canonicalSignature, ofString,
      String.toList_append, String.toList_intercalate]
    simp [types]

theorem exists_denotes_of_parse (h : parse source wanted = .ok s)
    (hm : m ∈ s.model.properMethods) : ∃ y : Signature, y.Denotes m := by
  obtain ⟨hmethod, hproper⟩ := List.mem_filter.mp hm
  obtain ⟨body, hbody, -⟩ := exists_primaryBody_of_parse h
  obtain ⟨member, hmember, hkind, rfl⟩ := hbody.methods m hmethod
  have hsound := hbody.sound.of_mem_children (List.mem_filter.mp hmember).left
  obtain hkind | hkind := hkind
  · rw [hkind]
    exact exists_denotes_readMethod hsound hkind
  · simp [readMethod, hkind] at hproper

end JavaSource

namespace ClassModel

variable {c : ClassModel} {m n : Method} {text : String}

-- What a text denotes is the same as the text without brackets and dots.
theorem bareForm_of_findMethod? (hdenotes : ∀ n ∈ c.properMethods, ∃ y : Signature, y.Denotes n)
    (hw : WellNested text) (h : c.findMethod? text = some m) :
    (ofString m.signature).bareForm = (ofString text).bareForm := by
  simp only [findMethod?, Option.or_eq_some_iff] at h
  obtain hexact | ⟨-, hmatch⟩ := h
  · have heq : m.signature = canonicalSignature text := by simpa using List.find?_some hexact
    rw [heq, hw.ofString_canonicalSignature]
  · obtain ⟨y, hy⟩ := hdenotes m (List.mem_of_find?_eq_some hmatch)
    exact (hy.signaturesMatch_iff hw).mp (by simpa using List.find?_some hmatch)

theorem findMethod?_of_match (hdenotes : ∀ n ∈ c.properMethods, ∃ y : Signature, y.Denotes n)
    (happart : ∀ m ∈ c.properMethods, ∀ n ∈ c.properMethods,
      signaturesMatch m.signature n.signature = true → m = n)
    (hw : WellNested text) (hm : m ∈ c.properMethods)
    (h : signaturesMatch m.signature text = true) : c.findMethod? text = some m := by
  obtain ⟨n, hn⟩ := Option.isSome_iff_exists.mp (isSome_findMethod? hm h)
  obtain ⟨y, hy⟩ := hdenotes m hm
  have hbare := (hy.signaturesMatch_iff hw).mp h
  have hmatch := signaturesMatch_of_bareForm_eq
    ((bareForm_of_findMethod? hdenotes hw hn).trans hbare.symm)
  rw [hn, happart n (mem_properMethods_of_findMethod? hn) m hm hmatch]

end ClassModel

end ClassSplit
