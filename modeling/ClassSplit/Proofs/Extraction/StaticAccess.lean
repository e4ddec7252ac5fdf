import ClassSplit.Proofs.Extraction.Members
import ClassSplit.Proofs.Extraction.Steps
import ClassSplit.Proofs.Plan.CallBack
import Mathlib

/-!
References to private static fields that move. They get the name of the new class in front of them
wherever they stand, and from another class they do not reach the field any more; this is reported
where they stand in a method that stays, and not reported where they stand elsewhere. Main
statement: `privateStaticUse_mem_issues_of_extract`.
-/

namespace ClassSplit

open Java

-- Methods that do not match have different signatures.
theorem JavaSource.nodup_signatures_of_parse {source : String} {wanted : Option String}
    {s : JavaSource} (h : parse source wanted = .ok s)
    (happart : ∀ m ∈ s.model.properMethods, ∀ n ∈ s.model.properMethods,
      signaturesMatch m.signature n.signature = true → m = n) :
    (s.model.properMethods.map (·.signature)).Nodup := by
  refine List.Nodup.map_on ?_ ((nodup_methods_of_parse h).filter _)
  intro m hm n hn heq
  exact happart m hm n hn (Signature.signaturesMatch_of_bareForm_eq (congrArg _ (congrArg _ heq)))

namespace Verdict

open Selection Signature

variable {c : ClassModel} {facts : Facts} {rounds : Nat} {candidate : Candidate}
  {fields methods : List String} {issues : List Issue} {m : Method} {f : Field}

-- The issue with a private static field that moves and that the class still uses.
def privateStaticUse (name : String) : Issue :=
  { kind := .privateStaticFieldUse, member := name
    description := "private static field is still used by the remaining class" }

-- A field that only its own class may use, and that all objects share.
structure IsHiddenStatic (f : Field) : Prop where
  isStatic : f.isStatic = true
  visibility : f.modifiers.visibility = .classOnly

instance (f : Field) : Decidable (IsHiddenStatic f) :=
  decidable_of_iff (f.isStatic = true ∧ f.modifiers.visibility = .classOnly)
    ⟨fun ⟨h₁, h₂⟩ => ⟨h₁, h₂⟩, fun ⟨h₁, h₂⟩ => ⟨h₁, h₂⟩⟩

theorem privateStaticUse_mem_privateStaticIssues {known : SignatureSet} (hf : IsHiddenStatic f)
    (hm : m ∈ c.properMethods) (hunknown : known.contains m.signature = false)
    (haccess : f.name ∈ facts.accessesOf m) :
    privateStaticUse f.name ∈ privateStaticIssues c facts known f.name f := by
  have hused : ((c.properMethods.filter (!known.contains ·.signature)).any fun m =>
      (facts.accessesOf m).contains f.name) = true :=
    List.any_eq_true.mpr ⟨m, List.mem_filter.mpr ⟨hm, by simp [hunknown]⟩, decide_eq_true haccess⟩
  rw [privateStaticIssues, hf.isStatic, hused, hf.visibility]
  exact List.mem_singleton.mpr rfl

theorem privateStaticUse_mem_issues {added : List (String × String)} {s : Selection}
    (hbacking : Backing c facts candidate fields methods issues added s)
    (hname : f.name ∈ fields) (hfield : c.field? f.name = some f) (hf : IsHiddenStatic f)
    (hm : m ∈ c.properMethods) (hunknown : s.known.contains m.signature = false)
    (haccess : f.name ∈ facts.accessesOf m) : privateStaticUse f.name ∈ issues := by
  have hissue : privateStaticUse f.name ∈
      fieldIssues c facts s.known (resolve c methods) fields f.name := by
    rw [fieldIssues, hfield]
    exact List.mem_append_right _ (privateStaticUse_mem_privateStaticIssues hf hm hunknown haccess)
  rw [hbacking.issues_eq]
  refine List.mem_append_right _ (List.mem_append_right _ (List.mem_append_right _ ?_))
  exact List.mem_flatMap.mpr ⟨f.name, hname, hissue⟩

end Verdict

namespace Extraction

open Signature Verdict

variable {settings : Settings} {r : Request} {source : String} {s : JavaSource} {o : Outcome}
  {names signatures : List String} {fields : List Field} {methods : List Method} {f : Field}
  {m : Method} {p : Patch}

-- A reference to a field that gets the name of the new class in front of it.
structure Renamed (d : Delegation) (p : Patch) (f : Field) (site : Site) : Prop where
  reference : ∃ reference, d.source.fieldReference? site = some reference ∧ reference.field = f
  replaced : .ofText site.span (d.newClass ++ "." ++ f.name) ∈ p.replacements

theorem renamed_iff {d : Delegation} {site : Site} :
    Renamed d p f site ↔ (d.source.fieldReference? site).any (·.field = f) = true ∧
      .ofText site.span (d.newClass ++ "." ++ f.name) ∈ p.replacements := by
  rw [Option.any_eq_true]
  constructor
  case mp =>
    rintro ⟨⟨reference, hreference, hfield⟩, hreplaced⟩
    exact ⟨⟨reference, hreference, decide_eq_true hfield⟩, hreplaced⟩
  case mpr =>
    rintro ⟨⟨reference, hreference, hfield⟩, hreplaced⟩
    exact ⟨⟨reference, hreference, of_decide_eq_true hfield⟩, hreplaced⟩

instance (d : Delegation) (p : Patch) (f : Field) (site : Site) : Decidable (Renamed d p f site) :=
  decidable_of_iff _ renamed_iff.symm

-- What an extraction does, up to the patch of the old class.
structure Patched (settings : Settings) (r : Request) (source : String) (s : JavaSource)
    (issues : List Issue) (result : Extracted) (names signatures : List String)
    (fields : List Field) (methods : List Method) (p : Patch) : Prop where
  parsed : parseFor r source = .ok s
  chosen : Chosen settings r none s names signatures issues fields methods
  patch : (delegationOf settings r s fields methods).patch = .ok p
  applied : p.apply source = .ok result.oldSource

theorem exists_patched_of_extract {result : Extracted}
    (h : extract settings r none source = .ok o) (hresult : o.result = some result) :
    ∃ s names signatures fields methods p,
      Patched settings r source s o.issues result names signatures fields methods p := by
  obtain ⟨-, s, names, signatures, fields, methods, moved, hparsed, hchosen, hcarried⟩ :=
    exists_of_extract h hresult
  obtain ⟨p, hpatch, happly⟩ := bind_eq_ok.mp hcarried.patched
  refine ⟨s, names, signatures, fields, methods, p, hparsed, hchosen, hpatch, ?_⟩
  obtain ⟨-, -, htext⟩ := JavaSource.exists_primaryBody_of_parse hparsed
  have hsource : (delegationOf settings r s fields methods).source.text = source.toList := htext
  rw [hsource, String.ofList_toList] at happly
  cases hresult : p.apply source with
  | error e =>
    rw [hresult] at happly
    cases happly
  | ok text =>
    rw [hresult] at happly
    cases happly
    rfl

section

variable {issues : List Issue} (hparsed : parseFor r source = .ok s)
  (happart : ∀ m ∈ s.model.properMethods, ∀ n ∈ s.model.properMethods,
    signaturesMatch m.signature n.signature = true → m = n)
  (hfound : ∀ m ∈ s.model.properMethods, m.isPrivate = true →
    s.model.findMethod? m.signature = some m)
  (hw : ∀ text ∈ r.methods, WellNested text)

include hparsed happart hfound hw

theorem Chosen.privateStaticUse_mem_issues
    (h : Chosen settings r none s names signatures issues fields methods) (hf : f ∈ fields)
    (hhidden : IsHiddenStatic f) (hm : m ∈ s.model.properMethods) (hstays : m ∉ methods)
    (haccess : f.name ∈ s.facts.accessesOf m) : privateStaticUse f.name ∈ issues := by
  obtain ⟨body, hbody, -⟩ := JavaSource.exists_primaryBody_of_parse hparsed
  obtain ⟨added, selection, hbacking⟩ := backing_of_decide h.approved
  have hname : f.name ∈ names :=
    (perm_of_resolveFields h.foundFields).mem_iff.mp (List.mem_map_of_mem hf)
  have hfield := field?_of_resolveFields h.foundFields hf
  have hfindable : Findable s.model :=
    ⟨fun m hm => JavaSource.exists_denotes_of_parse hparsed hm, happart, hfound⟩
  have hunknown : selection.known.contains m.signature = false := by
    by_contra hcontains
    rw [Bool.not_eq_false] at hcontains
    obtain ⟨n, hn, hspan⟩ := hfindable.exists_of_contains hbacking.completion hw hm hcontains
    have hproper := Selection.mem_properMethods_of_mem_resolve hn
    obtain rfl := JavaSource.eq_of_span_eq_of_parse hparsed (List.mem_filter.mp hproper).left
      (List.mem_filter.mp hm).left hspan
    obtain ⟨text, htext, hdenoted⟩ := List.mem_filterMap.mp (mem_of_mem_distinctOn hn)
    exact hstays ((mem_resolveMethods hbody h.foundMethods).mpr
      ⟨text, hbacking.methods_eq ▸ htext, hdenoted⟩)
  exact Verdict.privateStaticUse_mem_issues hbacking hname hfield hhidden hm hunknown haccess

theorem privateStaticUse_mem_issues_of_extract {result : Extracted}
    (h : extract settings r none source = .ok o) (hresult : o.result = some result) :
    ∃ names signatures fields methods p,
      Patched settings r source s o.issues result names signatures fields methods p ∧
        ∀ f ∈ fields, IsHiddenStatic f → ∀ m ∈ s.model.properMethods, m ∉ methods →
          ∀ declaration, s.member? m.span = some declaration → ∀ site ∈ declaration.preorder,
            Renamed (delegationOf settings r s fields methods) p f site →
              privateStaticUse f.name ∈ o.issues := by
  obtain ⟨s', names, signatures, fields, methods, p, hpatched⟩ := exists_patched_of_extract h hresult
  obtain rfl : s' = s := Except.ok.inj (hpatched.parsed.symm.trans hparsed)
  refine ⟨names, signatures, fields, methods, p, hpatched, ?_⟩
  intro f hf hhidden m hm hstays declaration hdeclaration site hsite hrenamed
  obtain ⟨reference, hreference, rfl⟩ := hrenamed.reference
  refine hpatched.chosen.privateStaticUse_mem_issues hparsed happart hfound hw hf hhidden hm hstays ?_
  have hdistinct := JavaSource.nodup_signatures_of_parse hparsed happart
  exact (JavaSource.mem_accessesOf_facts hdistinct hm hdeclaration).mpr
    ⟨site, hsite, reference, hreference, rfl⟩

end

-- What the steps of an extraction lead to, as far as the source decides it.
def patched? (settings : Settings) (r : Request) (s : JavaSource) :
    Option (List Field × List Method × Patch) :=
  match planFor settings r none s with
  | .rejected _ => none
  | .approved names signatures _ => do
    let fields ← (resolveFields s.model names).toOption
    let methods ← (resolveMethods s.model signatures).toOption
    let p ← (delegationOf settings r s fields methods).patch.toOption
    some (fields, methods, p)

theorem Patched.patched?_eq {issues : List Issue} {result : Extracted}
    (h : Patched settings r source s issues result names signatures fields methods p) :
    patched? settings r s = some (fields, methods, p) ∧
      (planFor settings r none s).issues = issues := by
  rw [patched?, h.chosen.approved]
  simp [h.chosen.foundFields, h.chosen.foundMethods, h.patch, Except.toOption, Plan.issues]

-- A reference in a method that stays.
def readSource : String := "class A\x7bprivate static int x;int m()\x7breturn x;\x7d\x7d"

-- A reference in the initializer of a field that stays.
def initializedSource : String := "class A\x7bprivate static int x;int y=x;\x7d"

def hiddenRequest : Request := ⟨"B", "A.java", [], ["x"]⟩

def hiddenClass : String := "class B \x7b\n    private static int x;\n\x7d\n"

theorem exists_extract_read : ∃ o result,
    extract {} hiddenRequest none readSource = .ok o ∧ o.result = some result ∧
      result.oldSource = "class A\x7bint m()\x7breturn B.x;\x7d\x7d" := by
  have hprepare : prepare? {} hiddenRequest none readSource =
      some ([.deletion ⟨8, 29⟩, .ofText ⟨44, 45⟩ "B.x"], hiddenClass) := by decide +kernel
  have happly : Patch.apply ⟨[.deletion ⟨8, 29⟩, .ofText ⟨44, 45⟩ "B.x"]⟩ readSource =
      .ok "class A\x7bint m()\x7breturn B.x;\x7d\x7d" := by cbv
  obtain ⟨o, hextract, hresult⟩ :=
    extract_of_prepare? hprepare happly (by decide +kernel) (by decide +kernel)
  exact ⟨o, _, hextract, hresult, rfl⟩

theorem exists_extract_initialized : ∃ o result,
    extract {} hiddenRequest none initializedSource = .ok o ∧ o.result = some result ∧
      result.oldSource = "class A\x7bint y=B.x;\x7d" := by
  have hprepare : prepare? {} hiddenRequest none initializedSource =
      some ([.deletion ⟨8, 29⟩, .ofText ⟨35, 36⟩ "B.x"], hiddenClass) := by decide +kernel
  have happly : Patch.apply ⟨[.deletion ⟨8, 29⟩, .ofText ⟨35, 36⟩ "B.x"]⟩ initializedSource =
      .ok "class A\x7bint y=B.x;\x7d" := by cbv
  obtain ⟨o, hextract, hresult⟩ :=
    extract_of_prepare? hprepare happly (by decide +kernel) (by decide +kernel)
  exact ⟨o, _, hextract, hresult, rfl⟩

-- Whether a reference at one of some sites to a private static field with a name is renamed.
def renamesHidden (d : Delegation) (p : Patch) (fields : List Field) (sites : List Site)
    (name : String) : Bool :=
  fields.any fun f => f.name == name && decide (IsHiddenStatic f) &&
    sites.any fun site => decide (Renamed d p f site)

theorem exists_of_renamesHidden {d : Delegation} {sites : List Site} {name : String}
    (h : renamesHidden d p fields sites name = true) :
    ∃ f ∈ fields, f.name = name ∧ IsHiddenStatic f ∧ ∃ site ∈ sites, Renamed d p f site := by
  obtain ⟨f, hf, hcheck⟩ := List.any_eq_true.mp h
  simp only [Bool.and_eq_true, beq_iff_eq, decide_eq_true_eq, List.any_eq_true] at hcheck
  exact ⟨f, hf, hcheck.left.left, hcheck.left.right, hcheck.right⟩

-- The sites in the methods that stay.
def stayingSites (s : JavaSource) (methods : List Method) : List Site :=
  (s.model.properMethods.filter (· ∉ methods)).flatMap fun m =>
    ((s.member? m.span).map (·.preorder)).getD []

theorem exists_of_mem_stayingSites {site : Site} (h : site ∈ stayingSites s methods) :
    ∃ m ∈ s.model.properMethods, m ∉ methods ∧
      ∃ declaration, s.member? m.span = some declaration ∧ site ∈ declaration.preorder := by
  obtain ⟨m, hm, hsite⟩ := List.mem_flatMap.mp h
  obtain ⟨hproper, hstays⟩ := List.mem_filter.mp hm
  cases hdeclaration : s.member? m.span with
  | none =>
    rw [hdeclaration] at hsite
    cases hsite
  | some declaration =>
    rw [hdeclaration] at hsite
    exact ⟨m, hproper, of_decide_eq_true hstays, declaration, hdeclaration, hsite⟩

theorem privateStaticUse_mem_issues_of_extract_read : ∃ s o result,
    parseFor hiddenRequest readSource = .ok s ∧
      extract {} hiddenRequest none readSource = .ok o ∧ o.result = some result ∧
        privateStaticUse "x" ∈ o.issues := by
  obtain ⟨o, result, hextract, hresult, -⟩ := exists_extract_read
  have hcheck : (parseFor hiddenRequest readSource).toOption.any (fun s =>
      decide ((∀ m ∈ s.model.properMethods, ∀ n ∈ s.model.properMethods,
          signaturesMatch m.signature n.signature = true → m = n) ∧
        ∀ m ∈ s.model.properMethods, m.isPrivate = true →
          s.model.findMethod? m.signature = some m) &&
      (patched? {} hiddenRequest s).any fun (fields, methods, p) =>
        renamesHidden (delegationOf {} hiddenRequest s fields methods) p fields
          (stayingSites s methods) "x") = true := by decide +kernel
  obtain ⟨s, hparsed, hcheck⟩ := exists_of_any_toOption hcheck
  obtain ⟨hapart, hcheck⟩ := Bool.and_eq_true_iff.mp hcheck
  obtain ⟨happart, hfound⟩ := of_decide_eq_true hapart
  obtain ⟨names, signatures, fields, methods, p, hpatched, hall⟩ :=
    privateStaticUse_mem_issues_of_extract hparsed happart hfound (by nofun) hextract hresult
  rw [hpatched.patched?_eq.left] at hcheck
  obtain ⟨f, hf, hname, hhidden, site, hsite, hrenamed⟩ := exists_of_renamesHidden hcheck
  obtain ⟨m, hm, hstays, declaration, hdeclaration, hsite⟩ := exists_of_mem_stayingSites hsite
  have hissue := hall f hf hhidden m hm hstays declaration hdeclaration site hsite hrenamed
  exact ⟨s, o, result, hparsed, hextract, hresult, hname ▸ hissue⟩

theorem not_forall_privateStaticUse_mem_issues :
    ¬∀ (settings : Settings) (r : Request) (source : String) (o : Outcome) (result : Extracted)
      (s : JavaSource) (names signatures : List String) (fields : List Field)
      (methods : List Method) (p : Patch) (f : Field) (body site : Site),
        extract settings r none source = .ok o → o.result = some result →
          Patched settings r source s o.issues result names signatures fields methods p →
            f ∈ fields → IsHiddenStatic f → s.classBody? = some body → site ∈ body.preorder →
              Renamed (delegationOf settings r s fields methods) p f site →
                privateStaticUse f.name ∈ o.issues := by
  intro h
  obtain ⟨o, result, hextract, hresult, -⟩ := exists_extract_initialized
  obtain ⟨s, names, signatures, fields, methods, p, hpatched⟩ :=
    exists_patched_of_extract hextract hresult
  have hcheck : (parseFor hiddenRequest initializedSource).toOption.any (fun s =>
      decide (privateStaticUse "x" ∉ (planFor {} hiddenRequest none s).issues) &&
      (patched? {} hiddenRequest s).any fun (fields, methods, p) =>
        renamesHidden (delegationOf {} hiddenRequest s fields methods) p fields
          ((s.classBody?.map (·.preorder)).getD []) "x") = true := by decide +kernel
  obtain ⟨s', hparsed, hcheck⟩ := exists_of_any_toOption hcheck
  obtain rfl : s' = s := Except.ok.inj (hparsed.symm.trans hpatched.parsed)
  obtain ⟨hsilent, hcheck⟩ := Bool.and_eq_true_iff.mp hcheck
  rw [hpatched.patched?_eq.left] at hcheck
  obtain ⟨f, hf, hname, hhidden, site, hsite, hrenamed⟩ := exists_of_renamesHidden hcheck
  cases hbody : s'.classBody? with
  | none =>
    rw [hbody] at hsite
    cases hsite
  | some body =>
    rw [hbody] at hsite
    have hissue := h _ _ _ o result s' names signatures fields methods p f body site hextract
      hresult hpatched hf hhidden hbody hsite hrenamed
    rw [hname, ← hpatched.patched?_eq.right] at hissue
    exact of_decide_eq_true hsilent hissue

end Extraction

end ClassSplit
