import ClassSplit.Proofs.Extraction.Overload

/-!
Moved methods in the place of accessors. A getter or setter is not declared if a moved instance
method has its signature and a body that is nothing but its statement. Blanks in the body do not
count, and nothing is asked of the result type of a getter, so that a method which returns another
type than the field has can take its place. No method takes the place of two accessors. Main
statement: `MovedField.replacedBy_of_parse`.
-/

namespace ClassSplit

open Text

namespace Method

variable {text : List Char} {m : Method} {statement body : String}

-- Between the braces of the method's body stands a statement, with any blanks in any place.
def Spells (text : List Char) (m : Method) (statement : String) : Prop :=
  ∃ body inner, m.body = some body ∧ trim (slice text body) = '\x7b' :: (inner ++ ['\x7d']) ∧
    inner.filter (!isBlank ·) = statement.toList.filter (!isBlank ·)

theorem exists_of_compactBody? (h : AccessorForm.compactBody? text m = some body) :
    ∃ span inner, m.body = some span ∧
      trim (slice text span) = '\x7b' :: (inner ++ ['\x7d']) ∧
        body.toList = inner.filter (!isBlank ·) := by
  rw [AccessorForm.compactBody?] at h
  split at h
  case h_1 opened hopened =>
    obtain ⟨span, hspan, htrim⟩ := Option.map_eq_some_iff.mp hopened
    split at h
    case isTrue hlast =>
      cases h
      have hclosed := List.dropLast_append_getLast? '\x7d' hlast
      exact ⟨span, opened.dropLast, hspan, by rw [htrim, hclosed], String.toList_ofList⟩
    case isFalse => cases h
  case h_2 => cases h

theorem spells_of_compactBody? (h : AccessorForm.compactBody? text m = some body)
    (heq : body.toList.filter (!isBlank ·) = statement.toList.filter (!isBlank ·)) :
    m.Spells text statement := by
  obtain ⟨span, inner, hspan, htrim, hinner⟩ := exists_of_compactBody? h
  refine ⟨span, inner, hspan, htrim, ?_⟩
  rw [← heq, hinner, List.filter_filter]
  simp

end Method

namespace AccessorForm

variable {text : List Char} {f : Field} {form : AccessorForm} {m : Method}

-- What a method in the place of an accessor has and does. A setter that does not say whose field it
-- stores into must have another name for its parameter.
inductive DoneBy (text : List Char) (f : Field) (m : Method) : AccessorForm → Prop
  | getter (isInstance : m.isStatic = false)
      (returns : m.Spells text ("return " ++ f.name ++ ";") ∨
        m.Spells text ("return this." ++ f.name ++ ";")) : DoneBy text f m .getter
  | setter (param : Parameter) (params : m.params = [param]) (isInstance : m.isStatic = false)
      (isVoid : m.returnType = "void")
      (stores : m.Spells text ("this." ++ f.name ++ " = " ++ param.name ++ ";") ∨
        param.name ≠ f.name ∧ m.Spells text (f.name ++ " = " ++ param.name ++ ";")) :
      DoneBy text f m .setter

-- A statement and the same without the blanks that separate its words.
theorem filter_return (target : String) :
    ("return" ++ target ++ ";").toList.filter (!isBlank ·) =
      ("return " ++ target ++ ";").toList.filter (!isBlank ·) := by
  have hword : "return ".toList.filter (!isBlank ·) = "return".toList.filter (!isBlank ·) := by
    decide
  simp only [String.toList_append, List.filter_append, hword]

theorem filter_assign (target value : String) :
    (target ++ "=" ++ value ++ ";").toList.filter (!isBlank ·) =
      (target ++ " = " ++ value ++ ";").toList.filter (!isBlank ·) := by
  have hmark : " = ".toList.filter (!isBlank ·) = "=".toList.filter (!isBlank ·) := by decide
  simp only [String.toList_append, List.filter_append, hmark]

theorem doneBy_of_isPlainGetter (h : isPlainGetter text f m = true) : DoneBy text f m .getter := by
  simp only [isPlainGetter, Bool.and_eq_true, Bool.not_eq_true', Option.any_eq_true,
    Bool.or_eq_true, beq_iff_eq] at h
  obtain ⟨hinstance, body, hbody, rfl | rfl⟩ := h
  · exact .getter hinstance (.inl (Method.spells_of_compactBody? hbody (filter_return f.name)))
  · refine .getter hinstance (.inr (Method.spells_of_compactBody? hbody ?_))
    have hqualified : "returnthis." ++ f.name = "return" ++ ("this." ++ f.name) := by
      rw [← String.append_assoc]
      rfl
    have hqualified' : "return this." ++ f.name = "return " ++ ("this." ++ f.name) := by
      rw [← String.append_assoc]
      rfl
    rw [hqualified, hqualified']
    exact filter_return ("this." ++ f.name)

theorem doneBy_of_isPlainSetter (h : isPlainSetter text f m = true) : DoneBy text f m .setter := by
  rw [isPlainSetter] at h
  split at h
  case h_1 param hparams =>
    simp only [Bool.and_eq_true, Bool.not_eq_true', Option.any_eq_true, Bool.or_eq_true,
      beq_iff_eq, bne_iff_ne, ne_eq] at h
    obtain ⟨⟨hinstance, hvoid⟩, body, hbody, hstored⟩ := h
    have hvoid : m.returnType = "void" := by simpa [Method.isVoid] using hvoid
    refine .setter param hparams hinstance hvoid ?_
    obtain rfl | ⟨hother, rfl⟩ := hstored
    · exact .inl (Method.spells_of_compactBody? hbody (filter_assign _ _))
    · exact .inr ⟨hother, Method.spells_of_compactBody? hbody (filter_assign _ _)⟩
  case h_2 => cases h

theorem doneBy_of_isReplacedBy (h : form.isReplacedBy text f m = true) :
    DoneBy text f m form := by
  cases form with
  | getter => exact doneBy_of_isPlainGetter h
  | setter => exact doneBy_of_isPlainSetter h
  | increment => cases h
  | postIncrement => cases h
  | decrement => cases h
  | postDecrement => cases h

end AccessorForm

namespace NamedAccessor

variable {text : List Char} {moved : List Method} {taken : List String} {f : Field}
  {form : AccessorForm} {forms : List AccessorForm} {a : NamedAccessor} {m : Method}

-- A method in the place of an accessor, which then has the first name that was to be tried.
structure ReplacedBy (text : List Char) (f : Field) (a : NamedAccessor) (m : Method) : Prop where
  name : a.name = a.form.baseName f
  signature : m.signature = (a.heading f).signature
  done : a.form.DoneBy text f m

theorem exists_replacedBy_of_choose (h : (choose text moved taken f form).reused = true) :
    ∃ m ∈ moved, (choose text moved taken f form).ReplacedBy text f m := by
  rw [choose] at h ⊢
  split at h
  case isTrue hreused =>
    rw [if_pos hreused]
    obtain ⟨m, hm, hreplaced⟩ := (Option.any_eq_true _ _).mp (Bool.and_eq_true_iff.mp hreused).left
    have hsignature := List.find?_some hm
    rw [beq_iff_eq, ← AccessorForm.signature_heading] at hsignature
    exact ⟨m, List.mem_of_find?_eq_some hm, rfl, hsignature,
      AccessorForm.doneBy_of_isReplacedBy hreplaced⟩
  case isFalse => cases h

theorem exists_replacedBy_of_chooseAll (ha : a ∈ chooseAll text moved taken f forms)
    (hreused : a.reused = true) : ∃ m ∈ moved, a.ReplacedBy text f m := by
  induction forms generalizing taken with
  | nil => cases ha
  | cons form forms ih =>
    rw [chooseAll] at ha
    obtain rfl | ha := List.mem_cons.mp ha
    · exact exists_replacedBy_of_choose hreused
    · exact ih ha

end NamedAccessor

namespace FieldAccessor

variable {text : List Char} {a b : FieldAccessor} {m : Method}

def ReplacedBy (text : List Char) (a : FieldAccessor) (m : Method) : Prop :=
  a.toNamedAccessor.ReplacedBy text a.field m

theorem ReplacedBy.isWord (h : a.ReplacedBy text m) (hfield : IsWord a.field.name) :
    IsWord a.name :=
  h.name ▸ AccessorForm.isWord_baseName _ hfield

-- The signature of a method tells the name of the accessor that it stands for.
theorem ReplacedBy.name_eq (ha : a.ReplacedBy text m) (hb : b.ReplacedBy text m)
    (hfield : IsWord a.field.name) (hfield' : IsWord b.field.name) : a.name = b.name :=
  Heading.name_eq_of_signature_eq (ha.isWord hfield) (hb.isWord hfield')
    (ha.signature.symm.trans hb.signature)

end FieldAccessor

namespace MovedField

variable {text : List Char} {moved : List Method} {taken : List String} {fields : List Field}
  {a : FieldAccessor}

theorem field_mem_of_mem_accessorsOf (ha : a ∈ accessorsOf text moved taken fields) :
    a.field ∈ fields := by
  induction fields generalizing taken with
  | nil => cases ha
  | cons f fields ih =>
    rw [accessorsOf] at ha
    split at ha
    case isTrue => exact List.mem_cons_of_mem f (ih ha)
    case isFalse =>
      obtain ha | ha := List.mem_append.mp ha
      · obtain ⟨b, -, rfl⟩ := List.mem_map.mp ha
        exact List.mem_cons_self
      · exact List.mem_cons_of_mem f (ih ha)

theorem exists_replacedBy_of_accessorsOf (ha : a ∈ accessorsOf text moved taken fields)
    (hreused : a.reused = true) : ∃ m ∈ moved, a.ReplacedBy text m := by
  induction fields generalizing taken with
  | nil => cases ha
  | cons f fields ih =>
    rw [accessorsOf] at ha
    split at ha
    case isTrue => exact ih ha
    case isFalse =>
      obtain ha | ha := List.mem_append.mp ha
      · obtain ⟨b, hb, rfl⟩ := List.mem_map.mp ha
        exact NamedAccessor.exists_replacedBy_of_chooseAll hb hreused
      · exact ih ha

theorem pairwise_replacedBy (hfields : ∀ f ∈ fields, IsWord f.name) :
    (accessorsOf text moved [] fields).Pairwise fun a b =>
      ∀ m, a.ReplacedBy text m → ¬b.ReplacedBy text m := by
  have hnodup : ((accessorsOf text moved [] fields).map (·.toNamedAccessor.name)).Nodup :=
    nodup_name_accessorsOf hfields List.nodup_nil
  refine (List.pairwise_map.mp hnodup).imp_of_mem ?_
  intro a b ha hb hne m hm hm'
  have hword (c : FieldAccessor) (hc : c ∈ accessorsOf text moved [] fields) :
      IsWord c.field.name := hfields _ (field_mem_of_mem_accessorsOf hc)
  exact hne (hm.name_eq hm' (hword a ha) (hword b hb))

variable {source : String} {wanted : Option String} {s : JavaSource} {indent : String}

-- Whatever of the accessors is not declared has a moved method in its place.
theorem replacedBy_of_parse (h : JavaSource.parse source wanted = .ok s)
    (hmoved : ∀ m ∈ moved, m ∈ s.model.properMethods) (hfields : ∀ f ∈ fields, f ∈ s.model.fields)
    (indent : String) :
    (ofFields s.text moved indent [] fields).flatMap (·.members) =
        ((accessorsOf s.text moved [] fields).filter (!·.reused)).map (·.declaration indent) ∧
      (∀ a ∈ accessorsOf s.text moved [] fields, a.reused = true →
        ∃ m ∈ moved, m.name = a.name ∧ a.ReplacedBy s.text m) ∧
        (accessorsOf s.text moved [] fields).Pairwise fun a b =>
          ∀ m, a.ReplacedBy s.text m → ¬b.ReplacedBy s.text m := by
  have hwords (f : Field) (hf : f ∈ fields) : IsWord f.name :=
    JavaSource.isPlain_of_mem_fields h (hfields f hf)
  refine ⟨flatMap_members_ofFields _ _ _ _ _, ?_, pairwise_replacedBy hwords⟩
  intro a ha hreused
  obtain ⟨m, hm, hreplaced⟩ := exists_replacedBy_of_accessorsOf ha hreused
  refine ⟨m, hm, ?_, hreplaced⟩
  obtain ⟨y, hy⟩ := JavaSource.exists_denotes_of_parse h (hmoved m hm)
  have hword := hreplaced.isWord (hwords a.field (field_mem_of_mem_accessorsOf ha))
  obtain ⟨params, hparams⟩ := Heading.exists_signature_eq (h := a.heading) hword
  have hform : y.canonicalForm = (Signature.mk a.name params).canonicalForm :=
    hy.signature.symm.trans (hreplaced.signature.trans hparams)
  rw [← hy.name]
  exact (Signature.render_inj (t := ⟨a.name, params⟩) hy.tidy.name hword hform).left

section Widened

-- A method that returns the field and is declared with a wider type.
def widenedSource : String := "class A\x7bint x;long getX()\x7breturn x;\x7d\x7d"

-- The accessors that are not declared when all members of a class move.
def reusedOf (s : JavaSource) : List FieldAccessor :=
  (accessorsOf s.text s.model.properMethods [] s.model.fields).filter (·.reused)

theorem exists_parse_widened : ∃ s, JavaSource.parse widenedSource none = .ok s ∧
    (reusedOf s).map (fun a => (a.form, a.field.type)) = [(.getter, "int")] ∧
      s.model.properMethods.map (·.returnType) = ["long"] := by
  have hparse : (JavaSource.parse widenedSource none).toOption.map (fun s =>
      ((reusedOf s).map (fun a => (a.form, a.field.type)),
        s.model.properMethods.map (·.returnType))) =
          some ([(.getter, "int")], ["long"]) := by decide +kernel
  cases hs : JavaSource.parse widenedSource none with
  | error e => simp [hs, Except.toOption] at hparse
  | ok s =>
    simp only [hs, Except.toOption, Option.map_some, Option.some.injEq, Prod.mk.injEq] at hparse
    exact ⟨s, rfl, hparse⟩

theorem exists_mem_reusedOf_widened : ∃ s, JavaSource.parse widenedSource none = .ok s ∧
    (∀ m ∈ s.model.properMethods, m.returnType = "long") ∧
      ∃ a ∈ accessorsOf s.text s.model.properMethods [] s.model.fields,
        a.reused = true ∧ a.form = .getter ∧ a.field.type = "int" := by
  obtain ⟨s, hparsed, hreused, hmethods⟩ := exists_parse_widened
  have hmem : (.getter, "int") ∈ (reusedOf s).map fun a => (a.form, a.field.type) :=
    hreused ▸ List.mem_singleton_self _
  obtain ⟨a, ha, heq⟩ := List.mem_map.mp hmem
  obtain ⟨ha, hreused⟩ := List.mem_filter.mp ha
  obtain ⟨hform, htype⟩ := Prod.mk.inj heq
  refine ⟨s, hparsed, ?_, a, ha, hreused, hform, htype⟩
  intro m hm
  have hreturn : m.returnType ∈ s.model.properMethods.map (·.returnType) := List.mem_map_of_mem hm
  rw [hmethods] at hreturn
  exact List.mem_singleton.mp hreturn

theorem replacedBy_of_parse_widened : ∃ s, JavaSource.parse widenedSource none = .ok s ∧
    ∃ a ∈ accessorsOf s.text s.model.properMethods [] s.model.fields, a.form = .getter ∧
      ∃ m ∈ s.model.properMethods, m.name = a.name ∧ a.ReplacedBy s.text m := by
  obtain ⟨s, hparsed, -, a, ha, hreused, hform, -⟩ := exists_mem_reusedOf_widened
  obtain ⟨-, hreplaced, -⟩ := replacedBy_of_parse hparsed (fun _ hm => hm) (fun _ hf => hf) "    "
  exact ⟨s, hparsed, a, ha, hform, hreplaced a ha hreused⟩

-- A method can take the place of a getter although it returns another type than the field has.
theorem not_forall_returnType : ¬∀ (source : String) (wanted : Option String) (s : JavaSource)
    (moved : List Method) (fields : List Field), JavaSource.parse source wanted = .ok s →
      (∀ m ∈ moved, m ∈ s.model.properMethods) → (∀ f ∈ fields, f ∈ s.model.fields) →
        ∀ a ∈ accessorsOf s.text moved [] fields, a.reused = true → a.form = .getter →
          ∀ m ∈ moved, a.ReplacedBy s.text m → m.returnType = a.field.type := by
  intro h
  obtain ⟨s, hparsed, hlong, a, ha, hreused, hform, hint⟩ := exists_mem_reusedOf_widened
  obtain ⟨m, hm, hreplaced⟩ := exists_replacedBy_of_accessorsOf ha hreused
  have heq :=
    h _ _ s _ _ hparsed (fun _ hm => hm) (fun _ hf => hf) a ha hreused hform m hm hreplaced
  rw [hlong m hm, hint] at heq
  exact absurd heq (by decide)

end Widened

end MovedField

end ClassSplit
