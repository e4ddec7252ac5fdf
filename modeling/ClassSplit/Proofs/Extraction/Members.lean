import ClassSplit.Extraction.Basic
import ClassSplit.Proofs.Delegation.Basic
import ClassSplit.Proofs.Model.Lookup
import ClassSplit.Proofs.Model.Order
import ClassSplit.Proofs.Plan.Verdict

/-!
The members that an approved plan denotes. All of them are found where those of the request are, and
they are taken out of the class in the order in which it declares them.
-/

namespace ClassSplit

theorem signaturesMatch_refl (text : String) : signaturesMatch text text = true :=
  Signature.agrees_iff_exists.mpr (.inl rfl)

namespace Extraction

variable {c : ClassModel} {s : JavaSource} {body : Java.Site} {names signatures : List String}
  {fields : List Field} {methods : List Method} {f : Field} {m : Method}

section Fields

theorem exists_resolveFields (h : ∀ name ∈ names, (c.field? name).isSome = true) :
    ∃ fields, resolveFields c names = .ok fields := by
  cases hfields : resolveFields c names with
  | ok fields => exact ⟨fields, rfl⟩
  | error e =>
    rw [resolveFields] at hfields
    obtain hfails | ⟨_, -, hrest⟩ := bind_eq_error.mp hfields
    · obtain ⟨name, hname, hfails⟩ := exists_of_mapM_eq_error hfails
      obtain ⟨f, hf⟩ := Option.isSome_iff_exists.mp (h name hname)
      rw [hf] at hfails
      cases hfails
    · cases hrest

theorem name_of_field? {name : String} (h : c.field? name = some f) :
    f.name = name ∧ f ∈ c.fields :=
  ⟨by simpa using List.find?_some h, List.mem_of_find?_eq_some h⟩

theorem found_of_resolveFields (h : resolveFields c names = .ok fields) :
    ∃ found : List Field, found.map (·.name) = names ∧ (∀ f ∈ found, c.field? f.name = some f) ∧
      fields = found.mergeSort fun f g => f.declarator.start ≤ g.declarator.start := by
  obtain ⟨found, hfound, heq⟩ := bind_eq_ok.mp h
  cases heq
  refine ⟨found, ?_, ?_, rfl⟩
  all_goals
    have hall := forall₂_of_mapM_eq_ok hfound
    clear h hfound
    induction hall with
    | nil => simp
    | @cons name f names found hf _ ih =>
      split at hf
      case h_2 => cases hf
      case h_1 f' hf' =>
        cases hf
        have hname := (name_of_field? hf').left
        subst hname
        simpa [hf'] using ih

theorem perm_of_resolveFields (h : resolveFields c names = .ok fields) :
    (fields.map (·.name)).Perm names := by
  obtain ⟨found, rfl, -, rfl⟩ := found_of_resolveFields h
  exact (List.mergeSort_perm _ _).map _

theorem field?_of_resolveFields (h : resolveFields c names = .ok fields) (hf : f ∈ fields) :
    c.field? f.name = some f := by
  obtain ⟨found, -, hfound, rfl⟩ := found_of_resolveFields h
  exact hfound f ((List.mergeSort_perm _ _).mem_iff.mp hf)

theorem sublist_of_resolveFields (hbody : s.PrimaryBody body) (hnames : names.Nodup)
    (h : resolveFields s.model names = .ok fields) : fields.Sublist s.model.fields := by
  obtain ⟨found, rfl, hfound, rfl⟩ := found_of_resolveFields h
  refine mergeSort_sublist hbody.fields_ascending ?_ (List.Nodup.of_map _ hnames)
  intro f hf
  exact (name_of_field? (hfound f hf)).right

end Fields

section Methods

theorem exists_resolveMethods (h : ∀ text ∈ signatures, (c.findMethod? text).isSome = true) :
    ∃ methods, resolveMethods c signatures = .ok methods := by
  cases hmethods : resolveMethods c signatures with
  | ok methods => exact ⟨methods, rfl⟩
  | error e =>
    rw [resolveMethods] at hmethods
    obtain hfails | ⟨_, -, hrest⟩ := bind_eq_error.mp hmethods
    · obtain ⟨text, htext, hfails⟩ := exists_of_mapM_eq_error hfails
      obtain ⟨m, hm⟩ := Option.isSome_iff_exists.mp (h text htext)
      rw [hm] at hfails
      cases hfails
    · cases hrest

theorem found_of_resolveMethods (h : resolveMethods c signatures = .ok methods) :
    ∃ found, List.Forall₂ (fun text m => c.findMethod? text = some m) signatures found ∧
      methods = (distinctOn (·.span) found).mergeSort fun m n => m.span.start ≤ n.span.start := by
  obtain ⟨found, hfound, heq⟩ := bind_eq_ok.mp h
  cases heq
  refine ⟨found, (forall₂_of_mapM_eq_ok hfound).imp ?_, rfl⟩
  intro text m hm
  split at hm
  case h_1 m' hm' =>
    cases hm
    exact hm'
  case h_2 => cases hm

theorem findMethod?_of_resolveMethods (h : resolveMethods c signatures = .ok methods)
    (hm : m ∈ methods) : ∃ text ∈ signatures, c.findMethod? text = some m := by
  obtain ⟨found, hfound, rfl⟩ := found_of_resolveMethods h
  have hmem := mem_of_mem_distinctOn ((List.mergeSort_perm _ _).mem_iff.mp hm)
  obtain ⟨text, htext, heq⟩ := exists_mem_of_forall₂ hfound hmem
  exact ⟨text, htext, heq⟩

theorem mem_methods_of_resolveMethods (h : resolveMethods c signatures = .ok methods)
    (hm : m ∈ methods) : m ∈ c.methods := by
  obtain ⟨text, -, hfound⟩ := findMethod?_of_resolveMethods h hm
  exact (c.not_isConstructor_of_findMethod? hfound).left

theorem sublist_of_resolveMethods (hbody : s.PrimaryBody body)
    (h : resolveMethods s.model signatures = .ok methods) : methods.Sublist s.model.methods := by
  have hsub (m : Method) (hm : m ∈ methods) := mem_methods_of_resolveMethods h hm
  obtain ⟨found, -, rfl⟩ := found_of_resolveMethods h
  refine mergeSort_sublist hbody.methods_ascending ?_ (List.Nodup.of_map _
    (nodup_map_distinctOn (·.span) found))
  intro m hm
  exact hsub m ((List.mergeSort_perm _ _).mem_iff.mpr hm)

-- Each text stands for one of the methods.
theorem mem_resolveMethods (hbody : s.PrimaryBody body)
    (h : resolveMethods s.model signatures = .ok methods) :
    m ∈ methods ↔ ∃ text ∈ signatures, s.model.findMethod? text = some m := by
  constructor
  case mp => exact findMethod?_of_resolveMethods h
  case mpr =>
    rintro ⟨text, htext, hm⟩
    obtain ⟨found, hfound, rfl⟩ := found_of_resolveMethods h
    obtain ⟨_, n, _, _, _, rfl, -, hn, -, -⟩ := exists_of_mem_forall₂ hfound htext
    rw [hm, Option.some.injEq] at hn
    subst hn
    rw [(List.mergeSort_perm _ _).mem_iff, mem_distinctOn_iff]
    · simp
    intro x hx y hy hspan
    obtain ⟨_, -, hx⟩ := exists_mem_of_forall₂ hfound hx
    obtain ⟨_, -, hy⟩ := exists_mem_of_forall₂ hfound hy
    exact eq_of_key_eq hbody.methods_ascending (s.model.not_isConstructor_of_findMethod? hx).left
      (s.model.not_isConstructor_of_findMethod? hy).left (congrArg Span.start hspan)

-- No two of the methods have the same signature.
theorem nodup_signature_of_resolveMethods (h : resolveMethods c signatures = .ok methods) :
    (methods.map (·.signature)).Nodup := by
  have hfirst (m : Method) (hm : m ∈ methods) :
      c.properMethods.find? (·.signature == m.signature) = some m := by
    obtain ⟨text, -, hfound⟩ := findMethod?_of_resolveMethods h hm
    exact ClassModel.find?_signature_of_findMethod? hfound
  have hnodup : methods.Nodup := by
    obtain ⟨found, -, rfl⟩ := found_of_resolveMethods h
    have hdistinct := List.Nodup.of_map _ (nodup_map_distinctOn (·.span) found)
    exact (List.mergeSort_perm _ _).nodup_iff.mpr hdistinct
  refine List.Nodup.map_on ?_ hnodup
  intro m hm n hn heq
  have hn' := hfirst n hn
  rw [← heq, hfirst m hm] at hn'
  exact Option.some.inj hn'

end Methods

section Plan

variable {facts : Facts} {rounds : Nat} {candidate : Candidate} {issues : List Issue}

-- What is added to a request is found as well.
theorem isSome_field?_of_decide (hrequest : ∀ name ∈ candidate.fields, (c.field? name).isSome = true)
    (h : Verdict.decide c facts rounds candidate = .approved names signatures issues) :
    ∀ name ∈ names, (c.field? name).isSome = true := by
  obtain ⟨added, selection, hbacking⟩ := Verdict.backing_of_decide h
  intro name hname
  rw [hbacking.fields_eq, List.mem_append] at hname
  obtain hname | hname := hname
  · exact hrequest name (List.mem_eraseDups.mp hname)
  · obtain ⟨-, ⟨f, hf, -⟩, -⟩ := Verdict.mem_map_staticAdditions.mp hname
    rw [hf]
    rfl

theorem isSome_findMethod?_of_decide
    (hrequest : ∀ text ∈ candidate.methods, (c.findMethod? text).isSome = true)
    (h : Verdict.decide c facts rounds candidate = .approved names signatures issues) :
    ∀ text ∈ signatures, (c.findMethod? text).isSome = true := by
  obtain ⟨added, selection, hbacking⟩ := Verdict.backing_of_decide h
  intro text htext
  rw [hbacking.methods_eq, hbacking.completion.methods_eq, List.mem_append] at htext
  obtain htext | htext := htext
  · exact hrequest text (List.mem_eraseDups.mp htext)
  · obtain ⟨addition, haddition, rfl⟩ := List.mem_map.mp htext
    obtain ⟨n, hn, -, heq⟩ := hbacking.completion.run.exists_private addition haddition
    rw [heq]
    exact ClassModel.isSome_findMethod? hn (signaturesMatch_refl n.signature)

end Plan

end Extraction

end ClassSplit
