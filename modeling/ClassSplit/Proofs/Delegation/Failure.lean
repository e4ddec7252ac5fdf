import ClassSplit.Proofs.Delegation.Patch

/-!
Why there is no patch of the class that stays. Where the helper field exists whenever something goes
through it, only a construct that is not supported and a method without a body stand in the way.
Main statement: `failure_of_patchedSource`.
-/

namespace ClassSplit

open Java

theorem NameMap.exists_mem_of_get? {α : Type} {m : NameMap α} {name : String} {value : α}
    (h : m.get? name = some value) : ∃ entry ∈ m.entries, entry.2 = value := by
  obtain ⟨before, after, hentries, -⟩ := List.lookup_eq_some_iff.mp h
  exact ⟨(name, value), by rw [hentries]; simp, rfl⟩

namespace Delegation

variable {d : Delegation} {body site : Site} {f : Field} {accessors : Accessors} {m : Method}
  {gone : List Span} {source : String} {e : ExtractionError}

-- There is a helper field if a method or a field that moves needs one.
structure Equipped (d : Delegation) : Prop where
  methods : ∀ m ∈ d.methods, m.isStatic = false → d.helper.isSome = true
  fields : ∀ entry ∈ d.fields.entries, entry.2.accessors.isSome = true → d.helper.isSome = true

theorem exists_needHelper (h : d.helper.isSome = true) : ∃ helper, d.needHelper = .ok helper := by
  obtain ⟨helper, hhelper⟩ := Option.isSome_iff_exists.mp h
  exact ⟨helper, by rw [needHelper, hhelper]⟩

theorem Equipped.exists_needHelper (h : d.Equipped) {f : DelegatedField}
    (hf : d.movedField? site = some f) (haccessors : f.accessors = some accessors) :
    ∃ helper, d.needHelper = .ok helper := by
  obtain ⟨reference, -, hget⟩ := Option.bind_eq_some_iff.mp hf
  obtain ⟨entry, hentry, rfl⟩ := NameMap.exists_mem_of_get? hget
  exact Delegation.exists_needHelper (h.fields entry hentry (by rw [haccessors]; rfl))

theorem Equipped.failure_of_stub (h : d.Equipped) (hm : m ∈ d.methods)
    (he : d.stub m = .error e) : m.body = none ∧ e = .missingBody m.signature := by
  simp only [stub] at he
  split at he
  case h_2 hbody =>
    cases he
    exact ⟨Option.eq_none_iff_forall_ne_some.mpr hbody, rfl⟩
  case h_1 =>
    exfalso
    split at he
    case isTrue => cases he
    case isFalse hstatic =>
      obtain ⟨helper, hhelper⟩ :=
        Delegation.exists_needHelper (h.methods m hm (Bool.not_eq_true _ ▸ hstatic))
      rw [hhelper] at he
      cases he

-- A declaration is found by its span.
theorem exists_declarationRemoval (h : d.source.PrimaryBody body)
    (hf : f ∈ d.source.model.fields) : ∃ r, d.declarationRemoval f = .ok r := by
  obtain ⟨declaration, hat, -, hread⟩ := h.exists_declaration hf
  have hspan := (JavaSource.of_mem_readFields hread).right.left
  rw [declarationRemoval, h.found, hspan, h.member?_eq (List.mem_of_getElem? hat)]
  exact ⟨_, rfl⟩

theorem exists_fieldRemovals (h : d.source.PrimaryBody body) :
    ∃ removals, d.fieldRemovals = .ok removals := by
  cases hremovals : d.fieldRemovals with
  | ok removals => exact ⟨removals, rfl⟩
  | error e =>
    rw [fieldRemovals] at hremovals
    obtain hfails | ⟨rs, -, hrest⟩ := bind_eq_error.mp hremovals
    · obtain ⟨f, hf, hfails⟩ := exists_of_mapM_eq_error hfails
      obtain ⟨group, -, hf⟩ := List.mem_flatMap.mp hf
      have hmem := (List.mem_filter.mp (List.mem_of_mem_take hf)).left
      obtain ⟨r, hr⟩ := exists_declarationRemoval h hmem
      rw [hr] at hfails
      cases hfails
    · cases hrest

section Reference

variable {helper : String} (hhelper : d.needHelper = .ok helper)

include hhelper

theorem isUnsupported_of_assignment (he : d.assignmentReplacements site f accessors = .error e) :
    e.isUnsupported = true := by
  rw [assignmentReplacements] at he
  split at he
  case isTrue =>
    cases he
    rfl
  case isFalse =>
    split at he
    case h_1 =>
      cases he
      rfl
    case h_2 =>
      rw [hhelper] at he
      cases he
    case h_3 => cases he

theorem isUnsupported_of_update (he : d.updateReplacements site f accessors = .error e) :
    e.isUnsupported = true := by
  simp only [updateReplacements, hhelper] at he
  obtain he | ⟨_, heq, he⟩ := bind_eq_error.mp he
  · cases he
  cases heq
  split at he
  case h_1 => cases he
  case h_2 =>
    cases he
    rfl
  case h_3 =>
    split at he
    case isTrue => cases he
    case isFalse =>
      cases he
      rfl

end Reference

theorem Equipped.isUnsupported_of_changes (h : d.Equipped)
    (he : d.changeReplacements site = .error e) : e.isUnsupported = true := by
  rw [changeReplacements] at he
  split at he
  case h_1 => cases he
  case h_2 f accessors hmoved =>
    obtain ⟨target, -, hinstance⟩ := Option.bind_eq_some_iff.mp hmoved
    obtain ⟨moved, hfield, haccessors⟩ := Option.bind_eq_some_iff.mp hinstance
    obtain ⟨_, hsome, -⟩ := Option.map_eq_some_iff.mp haccessors
    obtain ⟨helper, hhelper⟩ := h.exists_needHelper hfield hsome
    split at he
    case isTrue => exact isUnsupported_of_assignment hhelper he
    case isFalse => exact isUnsupported_of_update hhelper he

theorem Equipped.isUnsupported_of_site (h : d.Equipped) {changed : List Span}
    (he : d.siteReplacements changed site = .error e) : e.isUnsupported = true := by
  rw [siteReplacements] at he
  obtain he | ⟨changes, -, he⟩ := bind_eq_error.mp he
  · exact h.isUnsupported_of_changes he
  split at he
  case isTrue => cases he
  case isFalse =>
    split at he
    case h_1 => cases he
    case h_2 moved hfield =>
      obtain he | ⟨read, -, he⟩ := bind_eq_error.mp he
      · rw [readReplacement] at he
        split at he
        case h_1 => cases he
        case h_2 accessors haccessors =>
          obtain ⟨helper, hhelper⟩ := h.exists_needHelper hfield haccessors
          rw [hhelper] at he
          cases he
      · cases he

theorem Equipped.isUnsupported_of_references (h : d.Equipped) (hbody : d.source.PrimaryBody body)
    (he : d.referenceReplacements gone = .error e) : e.isUnsupported = true := by
  simp only [referenceReplacements, hbody.found] at he
  obtain he | ⟨rss, -, he⟩ := bind_eq_error.mp he
  · obtain ⟨site, -, he⟩ := exists_of_mapM_eq_error he
    exact h.isUnsupported_of_site he
  · cases he

-- The splice cannot fail, and all members are found.
theorem failure_of_patchedSource (hd : d.OfSource source) (h : d.Equipped)
    (he : d.patchedSource = .error e) :
    e.isUnsupported = true ∨ ∃ m ∈ d.methods, m.body = none ∧ e = .missingBody m.signature := by
  obtain ⟨wanted, hparsed⟩ := hd.parsed
  obtain ⟨body, hbody, htext⟩ := JavaSource.exists_primaryBody_of_parse hparsed
  rw [patchedSource] at he
  obtain hpatch | ⟨p, hp, he⟩ := bind_eq_error.mp he
  · rw [patch] at hpatch
    obtain hstubs | ⟨stubs, -, hpatch⟩ := bind_eq_error.mp hpatch
    · obtain ⟨m, hm, hstub⟩ := exists_of_mapM_eq_error hstubs
      exact .inr ⟨m, hm, h.failure_of_stub hm hstub⟩
    obtain hremovals | ⟨removals, -, hpatch⟩ := bind_eq_error.mp hpatch
    · obtain ⟨removals, hok⟩ := exists_fieldRemovals hbody
      rw [hok] at hremovals
      cases hremovals
    obtain hreferences | ⟨references, -, hpatch⟩ := bind_eq_error.mp hpatch
    · exact .inl (h.isUnsupported_of_references hbody hreferences)
    · cases hpatch
  · obtain ⟨text, happly⟩ := hd.exists_apply hp
    rw [htext, String.ofList_toList, happly] at he
    cases he

end Delegation

end ClassSplit
