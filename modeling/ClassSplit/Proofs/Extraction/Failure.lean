import ClassSplit.Proofs.Delegation.Failure
import ClassSplit.Proofs.Extraction.Members
import ClassSplit.Proofs.Extraction.Steps
import ClassSplit.Proofs.NewClass.Field
import ClassSplit.Proofs.NewClass.Method
import Mathlib

/-!
How an extraction fails whose members exist. Nothing that it looks up is missing and no edit is
refused; what is left is a method that has no body although it is not abstract, and a text that does
not follow the grammar after the members have moved. Main statement: `failure_of_extract`.
-/

namespace ClassSplit

namespace Extraction

variable {settings : Settings} {r : Request} {facts : Option Facts} {source : String}
  {s : JavaSource} {names signatures : List String} {fields : List Field} {methods : List Method}
  {issues : List Issue} {e : ExtractionError} {body : Java.Site} {m : Method}

theorem equipped_delegationOf (settings : Settings) (r : Request) (s : JavaSource)
    (fields : List Field) (methods : List Method) :
    (delegationOf settings r s fields methods).Equipped where
  methods := by
    intro m hm hinstance
    have hany : methods.any (!·.isStatic) = true := List.any_eq_true.mpr ⟨m, hm, by simp [hinstance]⟩
    simp [delegationOf, helperOf, hany]
  fields := by
    intro entry hentry haccessors
    obtain ⟨f, hf, rfl⟩ := List.mem_map.mp (NameMap.mem_entries_ofList hentry)
    obtain ⟨moved, hmoved, rfl⟩ := List.mem_map.mp hf
    have hinstance := (MovedField.declared_of_mem_ofFields hmoved).isSome_accessors
    rw [haccessors] at hinstance
    have hmem : moved.field ∈ fields := by
      rw [← MovedField.map_field_ofFields s.text methods settings.indent [] fields]
      exact List.mem_map_of_mem hmoved
    have hany : fields.any (!·.isStatic) = true := List.any_eq_true.mpr ⟨_, hmem, hinstance.symm⟩
    simp [delegationOf, helperOf, hany]

theorem ofSource_delegationOf (hparsed : parseFor r source = .ok s)
    (hfields : ∀ f ∈ fields, f ∈ s.model.fields) (hmethods : ∀ m ∈ methods, m ∈ s.model.methods) :
    (delegationOf settings r s fields methods).OfSource source where
  parsed := ⟨_, hparsed⟩
  methods := hmethods
  fields := by
    refine ⟨_, ?_, rfl⟩
    intro f hf
    obtain ⟨moved, hmoved, rfl⟩ := List.mem_map.mp hf
    refine hfields _ ?_
    rw [← MovedField.map_field_ofFields s.text methods settings.indent [] fields]
    exact List.mem_map_of_mem hmoved

-- The members of a class are moved unless one has no body or the texts are not well formed.
theorem failure_of_carryOut (hparsed : parseFor r source = .ok s)
    (hfields : ∀ f ∈ fields, f ∈ s.model.fields) (hmethods : ∀ m ∈ methods, m ∈ s.model.methods)
    (h : carryOut settings r s fields methods issues = .error e) :
    e.isUnsupported = true ∨ (∃ m ∈ methods, m.body = none ∧ e = .missingBody m.signature) ∨
      ∃ which, e = .malformedResult which := by
  obtain ⟨body, hbody, -⟩ := JavaSource.exists_primaryBody_of_parse hparsed
  obtain hmoved | ⟨moved, -, h⟩ := bind_eq_error.mp h
  · exact .inl (Relocation.isUnsupported_of_moveMethods (r := relocationOf r s fields methods)
      hbody hmethods hmoved)
  obtain hpatched | ⟨oldSource, -, h⟩ := bind_eq_error.mp h
  · obtain hunsupported | hmissing := Delegation.failure_of_patchedSource
      (ofSource_delegationOf hparsed hfields hmethods)
      (equipped_delegationOf settings r s fields methods) hpatched
    · exact .inl hunsupported
    · exact .inr (.inl hmissing)
  obtain hnew | ⟨_, -, h⟩ := bind_eq_error.mp h
  · exact .inr (.inr ⟨_, eq_of_checked_eq_error hnew⟩)
  obtain hold | ⟨_, -, h⟩ := bind_eq_error.mp h
  · exact .inr (.inr ⟨_, eq_of_checked_eq_error hold⟩)
  · cases h

-- An approved method is not abstract.
theorem not_isAbstract_of_decide {c : ClassModel} {known : Facts} {rounds : Nat}
    {candidate : Candidate}
    (h : Verdict.decide c known rounds candidate = .approved names signatures issues)
    (hm : m ∈ Selection.resolve c signatures) : m.isAbstract = false := by
  obtain ⟨added, selection, hbacking⟩ := Verdict.backing_of_decide h
  have hnone := hbacking.unblocked
  rw [Verdict.blockers, List.append_eq_nil_iff, List.append_eq_nil_iff] at hnone
  have hissues := List.flatMap_eq_nil_iff.mp hnone.left.left m hm
  by_contra habstract
  rw [Verdict.abstractIssues, if_pos (by simpa using habstract)] at hissues
  cases hissues

theorem mem_resolve_of_resolveMethods (hbody : s.PrimaryBody body)
    (h : resolveMethods s.model signatures = .ok methods) (hm : m ∈ methods) :
    m ∈ Selection.resolve s.model signatures := by
  obtain ⟨text, htext, hfound⟩ := findMethod?_of_resolveMethods h hm
  rw [Selection.resolve, mem_distinctOn_iff]
  · exact List.mem_filterMap.mpr ⟨text, htext, hfound⟩
  intro x hx y hy hspan
  obtain ⟨_, -, hx⟩ := List.mem_filterMap.mp hx
  obtain ⟨_, -, hy⟩ := List.mem_filterMap.mp hy
  exact eq_of_key_eq hbody.methods_ascending (s.model.not_isConstructor_of_findMethod? hx).left
    (s.model.not_isConstructor_of_findMethod? hy).left (congrArg Span.start hspan)

theorem failure_of_extract (hparsed : parseFor r source = .ok s)
    (hfields : ∀ name ∈ r.fields, (s.model.field? name).isSome = true)
    (hmethods : ∀ text ∈ r.methods, (s.model.findMethod? text).isSome = true)
    (h : extract settings r facts source = .error e) :
    (∃ names signatures issues, planFor settings r facts s = .approved names signatures issues ∧
        ∃ m ∈ Selection.resolve s.model signatures,
          m.body = none ∧ m.isAbstract = false ∧ e = .missingBody m.signature) ∨
      ∃ which, e = .malformedResult which := by
  obtain ⟨hsupported, s', names, signatures, issues, hparsed', happroved, hfails⟩ :=
    exists_of_extract_eq_error h
  obtain rfl : s = s' := Except.ok.inj (hparsed.symm.trans hparsed')
  obtain ⟨body, hbody, -⟩ := JavaSource.exists_primaryBody_of_parse hparsed
  obtain hfails | hfails | ⟨fields, methods, hchosen, hfails⟩ := hfails
  · obtain ⟨fields, hok⟩ := exists_resolveFields (isSome_field?_of_decide hfields happroved)
    rw [hok] at hfails
    cases hfails
  · obtain ⟨methods, hok⟩ :=
      exists_resolveMethods (isSome_findMethod?_of_decide hmethods happroved)
    rw [hok] at hfails
    cases hfails
  · have hmodelFields (f : Field) (hf : f ∈ fields) : f ∈ s.model.fields :=
      (name_of_field? (field?_of_resolveFields hchosen.foundFields hf)).right
    have hmodelMethods (m : Method) (hm : m ∈ methods) : m ∈ s.model.methods :=
      mem_methods_of_resolveMethods hchosen.foundMethods hm
    obtain hunsupported | ⟨m, hm, hmissing, rfl⟩ | hmalformed :=
      failure_of_carryOut hparsed hmodelFields hmodelMethods hfails
    · rw [hsupported] at hunsupported
      cases hunsupported
    · have hresolved := mem_resolve_of_resolveMethods hbody hchosen.foundMethods hm
      exact .inl ⟨names, signatures, issues, happroved, m, hresolved, hmissing,
        not_isAbstract_of_decide happroved hresolved, rfl⟩
    · exact .inr hmalformed

def error? {ε α : Type} : Except ε α → Option ε
  | .ok _ => none
  | .error e => some e

theorem eq_error_of_error? {ε α : Type} {x : Except ε α} {e : ε} (h : error? x = some e) :
    x = .error e := by
  cases x with
  | ok => cases h
  | error e' =>
    cases h
    rfl

-- A method that has no body although it is not abstract.
def nativeSource : String := "class A\x7bnative void m();\x7d"

def nativeRequest : Request := ⟨"B", "A.java", ["m()"], []⟩

theorem exists_native : ∃ s, parseFor nativeRequest nativeSource = .ok s ∧
    (s.model.findMethod? "m()").isSome = true ∧
      extract {} nativeRequest none nativeSource = .error (.missingBody "m()") := by
  have hfound : (parseFor nativeRequest nativeSource).toOption.any
      (fun s => (s.model.findMethod? "m()").isSome) = true := by decide +kernel
  have hfails : error? (extract {} nativeRequest none nativeSource) =
      some (.missingBody "m()") := by decide +kernel
  obtain ⟨s, hparsed, hfound⟩ := exists_of_any_toOption hfound
  exact ⟨s, hparsed, hfound, eq_error_of_error? hfails⟩

theorem failure_of_extract_native : ∃ s, parseFor nativeRequest nativeSource = .ok s ∧
    ∃ m ∈ s.model.methods, m.body = none ∧ m.isAbstract = false := by
  obtain ⟨s, hparsed, hfound, hfails⟩ := exists_native
  obtain ⟨names, signatures, issues, -, m, hm, hbody, habstract, -⟩ | ⟨which, hwhich⟩ :=
    failure_of_extract hparsed (by simp [nativeRequest]) (by simpa [nativeRequest] using hfound)
      hfails
  · obtain ⟨text, -, hm⟩ := List.mem_filterMap.mp (mem_of_mem_distinctOn hm)
    exact ⟨s, hparsed, m, (s.model.not_isConstructor_of_findMethod? hm).left, hbody, habstract⟩
  · cases hwhich

theorem not_forall_exists_extract :
    ¬∀ (settings : Settings) (r : Request) (facts : Option Facts) (source : String)
      (s : JavaSource), Java.isDeclarable r.newClass = true → parseFor r source = .ok s →
        (∀ name ∈ r.fields, (s.model.field? name).isSome = true) →
          (∀ text ∈ r.methods, (s.model.findMethod? text).isSome = true) →
            ∃ o, extract settings r facts source = .ok o := by
  intro h
  obtain ⟨s, hparsed, hfound, hfails⟩ := exists_native
  obtain ⟨o, ho⟩ := h {} nativeRequest none nativeSource s (by decide +kernel) hparsed
    (by simp [nativeRequest]) (by simpa [nativeRequest] using hfound)
  rw [hfails] at ho
  cases ho

end Extraction

end ClassSplit
