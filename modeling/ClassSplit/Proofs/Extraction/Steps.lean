import ClassSplit.Extraction.Basic
import ClassSplit.Proofs.Delegation.Basic

/-!
The steps of an extraction. A request leads to two texts exactly if each step succeeds: reading the
source, approving a plan, finding its members, and carrying the plan out. What comes before the
patch is carried out can be computed by itself (`prepare?`).
-/

namespace ClassSplit

namespace Extraction

variable {settings : Settings} {r : Request} {facts : Option Facts} {source : String}
  {s : JavaSource} {names signatures : List String} {fields : List Field} {methods : List Method}
  {issues : List Issue} {o : Outcome} {e : ExtractionError}

def helperOf (settings : Settings) (r : Request) (s : JavaSource) (fields : List Field)
    (methods : List Method) : Option String :=
  if methods.any (!·.isStatic) || fields.any (!·.isStatic) then
    some (helperName settings s r.newClass)
  else none

def movedFieldsOf (settings : Settings) (s : JavaSource) (fields : List Field)
    (methods : List Method) : List MovedField :=
  MovedField.ofFields s.text methods settings.indent [] fields

def relocationOf (r : Request) (s : JavaSource) (fields : List Field) (methods : List Method) :
    Relocation :=
  ⟨s, r.newClass, methods, fields.map (·.name)⟩

def delegationOf (settings : Settings) (r : Request) (s : JavaSource) (fields : List Field)
    (methods : List Method) : Delegation where
  source := s
  newClass := r.newClass
  helper := helperOf settings r s fields methods
  methods := methods
  fields := Delegation.fieldsOfList
    ((movedFieldsOf settings s fields methods).map fun f => ⟨f.field, f.accessors⟩)
  indent := settings.indent

def newClassOf (settings : Settings) (r : Request) (s : JavaSource) (fields : List Field)
    (methods : List Method) (moved : List MovedMethod) : NewClass where
  name := r.newClass
  origin := s.model
  fields := movedFieldsOf settings s fields methods
  methods := moved
  indent := settings.indent

def outcomeOf (r : Request) (s : JavaSource) (fields : List Field) (methods : List Method)
    (issues : List Issue) (result : Extracted) : Outcome where
  message :=
    "extracted " ++ toString fields.length ++ " field(s) and " ++ toString methods.length
      ++ " method(s) from " ++ s.model.name ++ " into " ++ r.newClass
  result := some result
  issues := issues

-- The members that a request for a source leads to, before they are moved.
structure Chosen (settings : Settings) (r : Request) (facts : Option Facts) (s : JavaSource)
    (names signatures : List String) (issues : List Issue) (fields : List Field)
    (methods : List Method) : Prop where
  unclaimed : ¬(r.newClass = s.model.name ∨ (s.model.nestedType? r.newClass).isSome = true)
  approved : planFor settings r facts s = .approved names signatures issues
  foundFields : resolveFields s.model names = .ok fields
  foundMethods : resolveMethods s.model signatures = .ok methods
  unrelated : s.otherInstanceIssues ((fields.filter (!·.isStatic)).map (·.name)) = []

-- The texts that moving the members leads to.
structure Carried (settings : Settings) (r : Request) (s : JavaSource) (fields : List Field)
    (methods : List Method) (moved : List MovedMethod) (result : Extracted) : Prop where
  movedMethods : (relocationOf r s fields methods).moveMethods = .ok moved
  patched : (delegationOf settings r s fields methods).patchedSource = .ok result.oldSource
  newSource : result.newSource = (newClassOf settings r s fields methods moved).source
  newPath : result.newPath = newPath settings r.path r.newClass
  newParses : (Java.tree? result.newSource.toList).isSome = true
  oldParses : (Java.tree? result.oldSource.toList).isSome = true

theorem checked_eq_ok {which : GeneratedText} {text : String} :
    checked which text = .ok () ↔ (Java.tree? text.toList).isSome = true := by
  rw [checked]
  split
  case isTrue h => simp [h]
  case isFalse h => simp [h]

theorem eq_of_checked_eq_error {which : GeneratedText} {text : String}
    (h : checked which text = .error e) : e = .malformedResult which := by
  rw [checked] at h
  split at h
  case isTrue => cases h
  case isFalse =>
    cases h
    rfl

theorem carried_of_carryOut (h : carryOut settings r s fields methods issues = .ok o) :
    ∃ moved result, Carried settings r s fields methods moved result ∧
      o = outcomeOf r s fields methods issues result := by
  obtain ⟨moved, hmoved, h⟩ := bind_eq_ok.mp h
  obtain ⟨oldSource, hold, h⟩ := bind_eq_ok.mp h
  obtain ⟨_, hnewParses, h⟩ := bind_eq_ok.mp h
  obtain ⟨_, holdParses, h⟩ := bind_eq_ok.mp h
  cases h
  refine ⟨moved, _, ⟨hmoved, ?_, rfl, rfl, ?_, ?_⟩, rfl⟩
  · exact hold
  · exact checked_eq_ok.mp hnewParses
  · exact checked_eq_ok.mp holdParses

theorem Carried.carryOut_eq {moved : List MovedMethod} {result : Extracted}
    (h : Carried settings r s fields methods moved result) (issues : List Issue) :
    carryOut settings r s fields methods issues =
      .ok (outcomeOf r s fields methods issues result) := by
  obtain ⟨newSource, oldSource, path⟩ := result
  obtain ⟨hmoved, hold, rfl, rfl, hnewParses, holdParses⟩ := h
  refine bind_eq_ok.mpr ⟨moved, hmoved, bind_eq_ok.mpr ⟨oldSource, hold, ?_⟩⟩
  refine bind_eq_ok.mpr ⟨(), checked_eq_ok.mpr hnewParses, ?_⟩
  exact bind_eq_ok.mpr ⟨(), checked_eq_ok.mpr holdParses, rfl⟩

theorem Chosen.attempt_eq (h : Chosen settings r facts s names signatures issues fields methods) :
    attempt settings r facts s = carryOut settings r s fields methods issues := by
  simp only [attempt]
  rw [if_neg h.unclaimed, h.approved]
  simp only [h.foundFields, h.foundMethods, bind, Except.bind]
  rw [h.unrelated]

-- A request ends without a result, its members are not found, or they are moved.
theorem attempt_cases (settings : Settings) (r : Request) (facts : Option Facts) (s : JavaSource) :
    (∃ o, attempt settings r facts s = .ok o ∧ o.result = none) ∨
      (∃ names signatures issues e,
        planFor settings r facts s = .approved names signatures issues ∧
          (resolveFields s.model names = .error e ∨ resolveMethods s.model signatures = .error e) ∧
            attempt settings r facts s = .error e) ∨
      ∃ names signatures issues fields methods,
        Chosen settings r facts s names signatures issues fields methods := by
  by_cases hunclaimed : r.newClass = s.model.name ∨
      (s.model.nestedType? r.newClass).isSome = true
  case pos => exact .inl ⟨_, if_pos hunclaimed, rfl⟩
  cases hplan : planFor settings r facts s with
  | rejected issues =>
    refine .inl ⟨.refusal s.model.name issues, ?_, rfl⟩
    simp only [attempt]
    rw [if_neg hunclaimed, hplan]
  | approved names signatures issues =>
    cases hfields : resolveFields s.model names with
    | error e =>
      refine .inr (.inl ⟨names, signatures, issues, e, rfl, .inl hfields, ?_⟩)
      simp only [attempt]
      rw [if_neg hunclaimed, hplan]
      exact bind_eq_error.mpr (.inl hfields)
    | ok fields =>
      cases hmethods : resolveMethods s.model signatures with
      | error e =>
        refine .inr (.inl ⟨names, signatures, issues, e, rfl, .inr hmethods, ?_⟩)
        simp only [attempt]
        rw [if_neg hunclaimed, hplan]
        exact bind_eq_error.mpr (.inr ⟨fields, hfields, bind_eq_error.mpr (.inl hmethods)⟩)
      | ok methods =>
        cases hissues : s.otherInstanceIssues ((fields.filter (!·.isStatic)).map (·.name)) with
        | nil =>
          exact .inr (.inr ⟨names, signatures, issues, fields, methods,
            hunclaimed, hplan, hfields, hmethods, hissues⟩)
        | cons issue rest =>
          refine .inl ⟨.refusal s.model.name (issue :: rest), ?_, rfl⟩
          simp only [attempt]
          rw [if_neg hunclaimed, hplan]
          refine bind_eq_ok.mpr ⟨fields, hfields, bind_eq_ok.mpr ⟨methods, hmethods, ?_⟩⟩
          rw [hissues]

theorem extract_eq (hdeclarable : Java.isDeclarable r.newClass = true)
    (hparsed : parseFor r source = .ok s) :
    extract settings r facts source =
      match attempt settings r facts s with
      | .error e => if e.isUnsupported then .ok (.failed e.message []) else .error e
      | .ok outcome => .ok outcome := by
  rw [extract, hdeclarable, hparsed]
  rfl

theorem Carried.extract_eq {moved : List MovedMethod} {result : Extracted}
    (h : Carried settings r s fields methods moved result)
    (hchosen : Chosen settings r facts s names signatures issues fields methods)
    (hdeclarable : Java.isDeclarable r.newClass = true) (hparsed : parseFor r source = .ok s) :
    extract settings r facts source = .ok (outcomeOf r s fields methods issues result) := by
  rw [Extraction.extract_eq hdeclarable hparsed, hchosen.attempt_eq, h.carryOut_eq issues]

theorem attempt_of_extract {result : Extracted} (h : extract settings r facts source = .ok o)
    (hresult : o.result = some result) :
    Java.isDeclarable r.newClass = true ∧
      ∃ s, parseFor r source = .ok s ∧ attempt settings r facts s = .ok o := by
  rw [extract] at h
  split at h
  case isTrue =>
    cases h
    cases hresult
  case isFalse hdeclarable =>
    split at h
    case h_1 =>
      cases h
      cases hresult
    case h_2 s hparsed =>
      refine ⟨by simpa using hdeclarable, s, hparsed, ?_⟩
      split at h
      case h_1 =>
        split at h
        case isTrue =>
          cases h
          cases hresult
        case isFalse => cases h
      case h_2 hattempt =>
        cases h
        exact hattempt

theorem attempt_of_extract_eq_error (h : extract settings r facts source = .error e) :
    e.isUnsupported = false ∧
      ∃ s, parseFor r source = .ok s ∧ attempt settings r facts s = .error e := by
  rw [extract] at h
  split at h
  case isTrue => cases h
  case isFalse =>
    split at h
    case h_1 => cases h
    case h_2 s hparsed =>
      split at h
      case h_2 => cases h
      case h_1 hattempt =>
        split at h
        case isTrue => cases h
        case isFalse hsupported =>
          cases h
          exact ⟨by simpa using hsupported, s, hparsed, hattempt⟩

-- An extraction that has a result has gone through all steps.
theorem exists_of_extract {result : Extracted} (h : extract settings r facts source = .ok o)
    (hresult : o.result = some result) :
    Java.isDeclarable r.newClass = true ∧ ∃ s names signatures fields methods moved,
      parseFor r source = .ok s ∧
        Chosen settings r facts s names signatures o.issues fields methods ∧
          Carried settings r s fields methods moved result := by
  obtain ⟨hdeclarable, s, hparsed, hattempt⟩ := attempt_of_extract h hresult
  refine ⟨hdeclarable, s, ?_⟩
  obtain ⟨o', ho', hnone⟩ | ⟨_, _, _, e, -, -, he⟩ |
    ⟨names, signatures, issues, fields, methods, hchosen⟩ := attempt_cases settings r facts s
  · rw [ho'] at hattempt
    cases hattempt
    rw [hnone] at hresult
    cases hresult
  · rw [he] at hattempt
    cases hattempt
  · rw [hchosen.attempt_eq] at hattempt
    obtain ⟨moved, result', hmoved, rfl⟩ := carried_of_carryOut hattempt
    cases hresult
    exact ⟨names, signatures, fields, methods, moved, hparsed, hchosen, hmoved⟩

-- An extraction that ends in an error has failed to find its members or to move them.
theorem exists_of_extract_eq_error (h : extract settings r facts source = .error e) :
    e.isUnsupported = false ∧ ∃ s names signatures issues, parseFor r source = .ok s ∧
      planFor settings r facts s = .approved names signatures issues ∧
        (resolveFields s.model names = .error e ∨ resolveMethods s.model signatures = .error e ∨
          ∃ fields methods, Chosen settings r facts s names signatures issues fields methods ∧
            carryOut settings r s fields methods issues = .error e) := by
  obtain ⟨hsupported, s, hparsed, hattempt⟩ := attempt_of_extract_eq_error h
  refine ⟨hsupported, s, ?_⟩
  obtain ⟨o, ho, -⟩ | ⟨names, signatures, issues, e', happroved, hfails, he⟩ |
    ⟨names, signatures, issues, fields, methods, hchosen⟩ := attempt_cases settings r facts s
  · rw [ho] at hattempt
    cases hattempt
  · rw [he] at hattempt
    cases hattempt
    exact ⟨names, signatures, issues, hparsed, happroved, hfails.imp_right .inl⟩
  · rw [hchosen.attempt_eq] at hattempt
    exact ⟨names, signatures, issues, hparsed, hchosen.approved,
      .inr (.inr ⟨fields, methods, hchosen, hattempt⟩)⟩

theorem ok_of_toOption {ε α : Type} {x : Except ε α} {a : α} (h : x.toOption = some a) :
    x = .ok a := by
  cases x with
  | error => cases h
  | ok b =>
    cases h
    rfl

theorem exists_of_any_toOption {ε α : Type} {x : Except ε α} {check : α → Bool}
    (h : x.toOption.any check = true) : ∃ a, x = .ok a ∧ check a = true := by
  obtain ⟨a, ha, hcheck⟩ := (Option.any_eq_true _ _).mp h
  exact ⟨a, ok_of_toOption ha, hcheck⟩

-- The replacements in the old class, and the text of the new one.
def prepare? (settings : Settings) (r : Request) (facts : Option Facts) (source : String) :
    Option (List Replacement × String) :=
  if Java.isDeclarable r.newClass then do
    let s ← (parseFor r source).toOption
    if r.newClass = s.model.name ∨ (s.model.nestedType? r.newClass).isSome then none
    else
      match planFor settings r facts s with
      | .rejected _ => none
      | .approved names signatures _ => do
        let fields ← (resolveFields s.model names).toOption
        let methods ← (resolveMethods s.model signatures).toOption
        if s.otherInstanceIssues ((fields.filter (!·.isStatic)).map (·.name)) = [] then
          let moved ← (relocationOf r s fields methods).moveMethods.toOption
          let patch ← (delegationOf settings r s fields methods).patch.toOption
          some (patch.replacements, (newClassOf settings r s fields methods moved).source)
        else none
  else none

theorem exists_of_prepare? {replacements : List Replacement} {newSource : String}
    (h : prepare? settings r facts source = some (replacements, newSource)) :
    Java.isDeclarable r.newClass = true ∧ ∃ s names signatures issues fields methods moved,
      parseFor r source = .ok s ∧
        Chosen settings r facts s names signatures issues fields methods ∧
          (relocationOf r s fields methods).moveMethods = .ok moved ∧
            (delegationOf settings r s fields methods).patch = .ok ⟨replacements⟩ ∧
              newSource = (newClassOf settings r s fields methods moved).source := by
  rw [prepare?] at h
  split at h
  case isFalse => cases h
  case isTrue hdeclarable =>
    obtain ⟨s, hparsed, h⟩ := Option.bind_eq_some_iff.mp h
    split at h
    case isTrue => cases h
    case isFalse hunclaimed =>
      split at h
      case h_1 => cases h
      case h_2 names signatures issues happroved =>
        obtain ⟨fields, hfields, h⟩ := Option.bind_eq_some_iff.mp h
        obtain ⟨methods, hmethods, h⟩ := Option.bind_eq_some_iff.mp h
        split at h
        case isFalse => cases h
        case isTrue hunrelated =>
          obtain ⟨moved, hmoved, h⟩ := Option.bind_eq_some_iff.mp h
          obtain ⟨patch, hpatch, h⟩ := Option.bind_eq_some_iff.mp h
          cases h
          exact ⟨hdeclarable, s, names, signatures, issues, fields, methods, moved,
            ok_of_toOption hparsed, ⟨hunclaimed, happroved, ok_of_toOption hfields,
              ok_of_toOption hmethods, hunrelated⟩, ok_of_toOption hmoved, ok_of_toOption hpatch,
            rfl⟩

theorem patchedSource_eq {d : Delegation} {p : Patch} {text : String}
    (hsource : d.source.text = source.toList) (hpatch : d.patch = .ok p)
    (happly : p.apply source = .ok text) : d.patchedSource = .ok text := by
  rw [Delegation.patchedSource, hpatch, hsource, String.ofList_toList]
  exact congrArg (Except.mapError _) happly

-- An extraction gives what has been prepared and the patched text, if both follow the grammar.
theorem extract_of_prepare? {replacements : List Replacement} {newSource oldSource : String}
    (h : prepare? settings r facts source = some (replacements, newSource))
    (happly : Patch.apply ⟨replacements⟩ source = .ok oldSource)
    (hnew : (Java.tree? newSource.toList).isSome = true)
    (hold : (Java.tree? oldSource.toList).isSome = true) :
    ∃ o, extract settings r facts source = .ok o ∧
      o.result = some ⟨newSource, oldSource, newPath settings r.path r.newClass⟩ := by
  obtain ⟨hdeclarable, s, names, signatures, issues, fields, methods, moved, hparsed, hchosen,
    hmoved, hpatch, rfl⟩ := exists_of_prepare? h
  obtain ⟨body, -, htext⟩ := JavaSource.exists_primaryBody_of_parse hparsed
  have hcarried : Carried settings r s fields methods moved ⟨_, oldSource, _⟩ :=
    ⟨hmoved, patchedSource_eq htext hpatch happly, rfl, rfl, hnew, hold⟩
  exact ⟨_, hcarried.extract_eq hchosen hdeclarable hparsed, rfl⟩

end Extraction

end ClassSplit
