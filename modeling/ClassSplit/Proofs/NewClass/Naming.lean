import ClassSplit.Proofs.NewClass.Field
import ClassSplit.Proofs.NewClass.Reuse

/-!
The names of accessors in turn. An accessor that is declared gets the first of its candidates that is
free, and the search for it ends because no more candidates are in use than there are accessors so
far and moved methods. All names that are told of the accessors of some fields differ. Main
statement: `MovedField.settled_of_ofFields`.
-/

namespace ClassSplit

namespace AccessorForm

variable {moved : List Method} {taken : List String} {f : Field} {form : AccessorForm}
  {name : String} {k : Nat}

-- No accessor so far has the name, and no moved method the signature that goes with it.
structure Free (form : AccessorForm) (f : Field) (moved : List Method) (taken : List String)
    (name : String) : Prop where
  untaken : name ∉ taken
  unclashing : ∀ m ∈ moved, m.signature ≠ form.signatureOf f name

-- Where the search for a name ends, and with what.
structure FirstFree (form : AccessorForm) (f : Field) (moved : List Method) (taken : List String)
    (k : Nat) (name : String) : Prop where
  ends : k ≤ taken.length + moved.length
  candidate : name = candidateName (form.baseName f) k
  free : form.Free f moved taken name
  first : ∀ j, j < k → ¬form.Free f moved taken (candidateName (form.baseName f) j)

end AccessorForm

namespace NamedAccessor

variable {text : List Char} {moved : List Method} {taken : List String} {f : Field}
  {form : AccessorForm}

theorem exists_firstFree_of_choose (hf : IsWord f.name)
    (h : (choose text moved taken f form).reused = false) :
    ∃ k, form.FirstFree f moved taken k (choose text moved taken f form).name := by
  obtain ⟨huntaken, hunclashing⟩ := choose_spec hf text moved taken form
  have hfree : form.Free f moved taken (choose text moved taken f form).name := by
    refine ⟨huntaken, fun m hm => ?_⟩
    have hsignature := hunclashing h m hm
    rwa [heading, AccessorForm.signature_heading, form_choose] at hsignature
  rw [choose] at h hfree ⊢
  split at h
  case isTrue => cases h
  case isFalse hreused =>
    rw [if_neg hreused] at hfree ⊢
    obtain ⟨k, hk, hname, hbefore⟩ := exists_eq_firstFree
      (fun name => taken.contains name || moved.any (·.signature == form.signatureOf f name))
      (AccessorForm.candidateName (form.baseName f)) (taken.length + moved.length) 0
    refine ⟨k, hk, by simpa using hname, hfree, fun j hj hcandidate => ?_⟩
    have hclash := hbefore j hj
    simp only [Nat.zero_add, Bool.or_eq_true, List.contains_iff_mem, List.any_eq_true,
      beq_iff_eq] at hclash
    obtain hmem | ⟨m, hm, hsignature⟩ := hclash
    · exact hcandidate.untaken hmem
    · exact hcandidate.unclashing m hm hsignature

end NamedAccessor

namespace FieldAccessor

variable {text : List Char} {moved : List Method} {taken : List String} {a : FieldAccessor}
  {as bs : List FieldAccessor} {P : List String → FieldAccessor → Prop}

-- How an accessor got its name, given the names of those before it.
structure Settled (text : List Char) (moved : List Method) (taken : List String)
    (a : FieldAccessor) : Prop where
  reused : a.reused = true → a.name ∉ taken ∧ ∃ m ∈ moved, a.ReplacedBy text m
  declared : a.reused = false → ∃ k, a.form.FirstFree a.field moved taken k a.name

-- Each of some accessors is as it should be, given the names of those before it.
def InTurn (P : List String → FieldAccessor → Prop) (taken : List String) :
    List FieldAccessor → Prop
  | [] => True
  | a :: as => P taken a ∧ InTurn P (taken ++ [a.name]) as

theorem inTurn_append (has : InTurn P taken as) (hbs : InTurn P (taken ++ as.map (·.name)) bs) :
    InTurn P taken (as ++ bs) := by
  induction as generalizing taken with
  | nil => simpa using hbs
  | cons a as ih => exact ⟨has.left, ih has.right (by simpa using hbs)⟩

theorem InTurn.of_append (h : InTurn P taken (as ++ a :: bs)) :
    P (taken ++ as.map (·.name)) a := by
  induction as generalizing taken with
  | nil => simpa using h.left
  | cons b as ih => simpa using ih h.right

end FieldAccessor

namespace NamedAccessor

open FieldAccessor

variable {text : List Char} {moved : List Method} {taken : List String} {f : Field}
  {form : AccessorForm} {forms : List AccessorForm}

theorem settled_choose (hf : IsWord f.name) (text : List Char) (moved : List Method)
    (taken : List String) (form : AccessorForm) :
    FieldAccessor.Settled text moved taken ⟨choose text moved taken f form, f⟩ where
  reused h := ⟨(choose_spec hf text moved taken form).left, exists_replacedBy_of_choose h⟩
  declared h := by
    obtain ⟨k, hk⟩ := exists_firstFree_of_choose hf h
    refine ⟨k, ?_⟩
    change (choose text moved taken f form).form.FirstFree f moved taken k _
    rwa [form_choose]

theorem inTurn_chooseAll (hf : IsWord f.name) :
    InTurn (FieldAccessor.Settled text moved) taken
      ((chooseAll text moved taken f forms).map (⟨·, f⟩)) := by
  induction forms generalizing taken with
  | nil => trivial
  | cons form forms ih => exact ⟨settled_choose hf text moved taken form, ih⟩

end NamedAccessor

-- The names of a field's accessors as they are told, with what each of them is for.
def Accessors.byForm (a : Accessors) : List (AccessorForm × String) :=
  (.getter, a.getter) :: (a.setter.map (AccessorForm.setter, ·)).toList
    ++ (a.increments.map fun i =>
        [(AccessorForm.increment, i.increment), (.postIncrement, i.postIncrement),
          (.decrement, i.decrement), (.postDecrement, i.postDecrement)]).getD []

theorem Accessors.byForm_ofNamed {named : List NamedAccessor} {f : Field}
    (h : named.map (·.form) = AccessorForm.needed f) :
    (Accessors.ofNamed named).byForm = named.map fun a => (a.form, a.name) := by
  rw [AccessorForm.needed, List.cons_append, List.map_eq_cons_iff] at h
  obtain ⟨getter, named, rfl, hgetter, h⟩ := h
  split at h
  all_goals split at h
  all_goals
    simp only [List.nil_append, List.cons_append, List.map_eq_cons_iff, List.map_eq_nil_iff] at h
  case isTrue.isTrue =>
    obtain ⟨a, _, rfl, ha, b, _, rfl, hb, c, _, rfl, hc, d, _, rfl, hd, rfl⟩ := h
    simp [ofNamed, byForm, hgetter, ha, hb, hc, hd]
  case isTrue.isFalse =>
    subst h
    simp [ofNamed, byForm, hgetter]
  case isFalse.isTrue =>
    obtain ⟨setter, _, rfl, hsetter, a, _, rfl, ha, b, _, rfl, hb, c, _, rfl, hc, d, _, rfl, hd,
      rfl⟩ := h
    simp [ofNamed, byForm, hgetter, hsetter, ha, hb, hc, hd]
  case isFalse.isFalse =>
    obtain ⟨setter, _, rfl, hsetter, rfl⟩ := h
    simp [ofNamed, byForm, hgetter, hsetter]

namespace MovedField

open FieldAccessor

variable {text : List Char} {moved : List Method} {taken : List String} {fields : List Field}

def reports (m : MovedField) : List (Field × AccessorForm × String) :=
  (m.accessors.map fun a => a.byForm.map (m.field, ·)).getD []

theorem flatMap_reports_ofFields (text : List Char) (moved : List Method) (indent : String)
    (taken : List String) (fields : List Field) :
    (ofFields text moved indent taken fields).flatMap reports =
      (accessorsOf text moved taken fields).map fun a => (a.field, a.form, a.name) := by
  induction fields generalizing taken with
  | nil => rfl
  | cons f fields ih =>
    rw [ofFields, accessorsOf]
    split
    case isTrue => exact ih taken
    case isFalse =>
      have hforms : (NamedAccessor.chooseAll text moved taken f (AccessorForm.needed f)).map (·.form)
          = AccessorForm.needed f :=
        NamedAccessor.map_form_chooseAll _
      rw [List.flatMap_cons, ih, List.map_append, List.map_map]
      refine congrArg (· ++ _) ?_
      change ((Accessors.ofNamed _).byForm.map (f, ·)) = _
      rw [Accessors.byForm_ofNamed hforms, List.map_map]
      rfl

theorem inTurn_accessorsOf (hfields : ∀ f ∈ fields, IsWord f.name) :
    InTurn (FieldAccessor.Settled text moved) taken (accessorsOf text moved taken fields) := by
  induction fields generalizing taken with
  | nil => trivial
  | cons f fields ih =>
    have hfs : ∀ g ∈ fields, IsWord g.name := fun g hg => hfields g (List.mem_cons_of_mem f hg)
    rw [accessorsOf]
    split
    case isTrue => exact ih hfs
    case isFalse =>
      refine inTurn_append (NamedAccessor.inTurn_chooseAll (hfields f List.mem_cons_self)) ?_
      rw [List.map_map]
      exact ih hfs

-- The names that are told of the accessors, and how each of them came about.
theorem settled_of_ofFields (hfields : ∀ f ∈ fields, IsWord f.name) (text : List Char)
    (moved : List Method) (indent : String) :
    (ofFields text moved indent [] fields).flatMap reports =
        (accessorsOf text moved [] fields).map (fun a => (a.field, a.form, a.name)) ∧
      (((ofFields text moved indent [] fields).flatMap reports).map (·.2.2)).Nodup ∧
        ∀ before a after, accessorsOf text moved [] fields = before ++ a :: after →
          a.Settled text moved (before.map (·.name)) := by
  have hreports := flatMap_reports_ofFields text moved indent [] fields
  refine ⟨hreports, ?_, fun before a after heq => ?_⟩
  · rw [hreports, List.map_map]
    exact nodup_name_accessorsOf hfields List.nodup_nil
  · have hturn : InTurn (FieldAccessor.Settled text moved) []
        (accessorsOf text moved [] fields) := inTurn_accessorsOf hfields
    rw [heq] at hturn
    exact hturn.of_append

section Clashing

-- A method has the name of the first getter, and the second getter that of the first one as it is
-- called then.
def clashingSource : String := "class A\x7bint x,xField;int getX()\x7breturn 1;\x7d\x7d"

def gettersOf (s : JavaSource) : List FieldAccessor :=
  (accessorsOf s.text s.model.properMethods [] s.model.fields).filter (·.form = .getter)

theorem exists_parse_clashing : ∃ s, JavaSource.parse clashingSource none = .ok s ∧
    (gettersOf s).map (fun a => (a.name, a.reused)) =
      [("getXField", false), ("getXFieldField", false)] := by
  have hparse : (JavaSource.parse clashingSource none).toOption.map (fun s =>
      (gettersOf s).map fun a => (a.name, a.reused)) =
        some [("getXField", false), ("getXFieldField", false)] := by decide +kernel
  cases hs : JavaSource.parse clashingSource none with
  | error e => simp [hs, Except.toOption] at hparse
  | ok s =>
    simp only [hs, Except.toOption, Option.map_some, Option.some.injEq] at hparse
    exact ⟨s, rfl, hparse⟩

theorem settled_of_ofFields_clashing : ∃ s, JavaSource.parse clashingSource none = .ok s ∧
    (gettersOf s).map (fun a => (a.name, a.reused)) =
        [("getXField", false), ("getXFieldField", false)] ∧
      (∀ f ∈ s.model.fields, IsWord f.name) ∧
        (((ofFields s.text s.model.properMethods "    " [] s.model.fields).flatMap reports).map
          (·.2.2)).Nodup ∧
          ∀ before a after,
            accessorsOf s.text s.model.properMethods [] s.model.fields = before ++ a :: after →
              a.Settled s.text s.model.properMethods (before.map (·.name)) := by
  obtain ⟨s, hparsed, hgetters⟩ := exists_parse_clashing
  have hfields (f : Field) (hf : f ∈ s.model.fields) : IsWord f.name :=
    JavaSource.isPlain_of_mem_fields hparsed hf
  obtain ⟨-, hnodup, hsettled⟩ :=
    settled_of_ofFields hfields s.text s.model.properMethods "    "
  exact ⟨s, hparsed, hgetters, hfields, hnodup, hsettled⟩

end Clashing

end MovedField

end ClassSplit
