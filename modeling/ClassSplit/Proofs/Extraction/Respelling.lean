import ClassSplit.Proofs.Extraction.Members
import ClassSplit.Proofs.Extraction.Steps
import ClassSplit.Proofs.Plan.Respelling
import Mathlib

/-!
Extractions that are asked for in another way. The order and the repetition of the members of a
request, the spelling of its signatures and that of the keys of the facts that go with it do not
matter for the texts that are produced. Main statement: `extract_of_respelled`.
-/

namespace ClassSplit

-- Facts that differ in the spelling of their keys only.
structure Facts.Respells (facts facts' : Facts) : Prop where
  calls : Facts.Respelled facts.calls facts'.calls
  accesses : Facts.Respelled facts.accesses facts'.accesses
  types : Facts.Respelled facts.types facts'.types

theorem Facts.Respells.agree {facts facts' : Facts} {c : ClassModel}
    (h : facts.Respells facts') (hdenotes : ∀ m ∈ c.properMethods, ∃ y : Signature, y.Denotes m) :
    facts.Agree c facts' where
  callsOf_eq m hm := (hdenotes m hm).elim fun _ hy => Facts.namesOf_eq h.calls hy
  accessesOf_eq m hm := (hdenotes m hm).elim fun _ hy => Facts.namesOf_eq h.accesses hy
  typesOf_eq m hm := (hdenotes m hm).elim fun _ hy => Facts.namesOf_eq h.types hy

-- Facts that go with two requests, if any: the same, or the same under other keys.
def Facts.SameUpToKeys (facts facts' : Option Facts) : Prop :=
  facts = facts' ∨ ∃ given given', facts = some given ∧ facts' = some given' ∧
    given.Respells given'

-- Requests that differ in order, in repetition and in the spelling of signatures.
structure Request.Respells (r r' : Request) : Prop where
  newClass : r.newClass = r'.newClass
  path : r.path = r'.path
  methods : Respelled r.methods r'.methods
  fields : ∀ name, name ∈ r.fields ↔ name ∈ r'.fields

namespace Extraction

variable {settings : Settings} {r r' : Request} {facts facts' : Option Facts} {source : String}
  {s : JavaSource} {body : Java.Site} {names names' signatures signatures' : List String}
  {fields : List Field} {methods : List Method} {issues : List Issue} {o : Outcome}

theorem resolveFields_congr (hbody : s.PrimaryBody body) (hnodup : names.Nodup)
    (hnodup' : names'.Nodup) (hnames : ∀ name, name ∈ names ↔ name ∈ names')
    (h : resolveFields s.model names = .ok fields) :
    resolveFields s.model names' = .ok fields := by
  have hmem (name : String) : name ∈ names' ↔ ∃ f ∈ fields, f.name = name := by
    rw [← hnames, ← (perm_of_resolveFields h).mem_iff, List.mem_map]
  have hfound : ∀ name ∈ names', (s.model.field? name).isSome = true := by
    intro name hname
    obtain ⟨f, hf, rfl⟩ := (hmem name).mp hname
    rw [field?_of_resolveFields h hf]
    rfl
  obtain ⟨fields', hfields'⟩ := exists_resolveFields hfound
  rw [hfields', Except.ok.injEq]
  refine eq_of_sublist hbody.fields_ascending (sublist_of_resolveFields hbody hnodup' hfields')
    (sublist_of_resolveFields hbody hnodup h) ?_
  have hsame {xs ys : List String} {fs gs : List Field}
      (hxs : resolveFields s.model xs = .ok fs) (hys : resolveFields s.model ys = .ok gs)
      (hsub : ∀ name ∈ xs, name ∈ ys) : ∀ f ∈ fs, f ∈ gs := by
    intro f hf
    have hname : f.name ∈ gs.map (·.name) := (perm_of_resolveFields hys).mem_iff.mpr
      (hsub _ ((perm_of_resolveFields hxs).mem_iff.mp (List.mem_map_of_mem hf)))
    obtain ⟨g, hg, heq⟩ := List.mem_map.mp hname
    have hfound := field?_of_resolveFields hys hg
    rw [heq, field?_of_resolveFields hxs hf, Option.some.injEq] at hfound
    exact hfound ▸ hg
  intro f
  exact ⟨hsame hfields' h (fun name => (hnames name).mpr) f,
    hsame h hfields' (fun name => (hnames name).mp) f⟩

theorem resolveMethods_congr (hbody : s.PrimaryBody body)
    (hdenoted : ∀ text ∈ signatures, ∃ text' ∈ signatures',
      s.model.findMethod? text' = s.model.findMethod? text)
    (hdenoted' : ∀ text' ∈ signatures', ∃ text ∈ signatures,
      s.model.findMethod? text = s.model.findMethod? text')
    (h : resolveMethods s.model signatures = .ok methods) :
    resolveMethods s.model signatures' = .ok methods := by
  have hfound : ∀ text' ∈ signatures', (s.model.findMethod? text').isSome = true := by
    intro text' htext'
    obtain ⟨text, htext, heq⟩ := hdenoted' text' htext'
    obtain ⟨found, hfound, -⟩ := found_of_resolveMethods h
    obtain ⟨_, m, _, _, _, rfl, -, hm, -, -⟩ := exists_of_mem_forall₂ hfound htext
    rw [← heq, hm]
    rfl
  obtain ⟨methods', hmethods'⟩ := exists_resolveMethods hfound
  rw [hmethods', Except.ok.injEq]
  refine eq_of_sublist hbody.methods_ascending (sublist_of_resolveMethods hbody hmethods')
    (sublist_of_resolveMethods hbody h) ?_
  intro m
  rw [mem_resolveMethods hbody hmethods', mem_resolveMethods hbody h]
  constructor
  case mp =>
    rintro ⟨text', htext', hm⟩
    obtain ⟨text, htext, heq⟩ := hdenoted' text' htext'
    exact ⟨text, htext, heq.trans hm⟩
  case mpr =>
    rintro ⟨text, htext, hm⟩
    obtain ⟨text', htext', heq⟩ := hdenoted text htext
    exact ⟨text', htext', heq.trans hm⟩

-- A request in another spelling leads to the same members.
theorem exists_chosen_of_respelled (hparsed : parseFor r source = .ok s) (hr : r.Respells r')
    (hfacts : Facts.SameUpToKeys facts facts')
    (h : Chosen settings r facts s names signatures issues fields methods) :
    ∃ names' signatures' issues',
      Chosen settings r' facts' s names' signatures' issues' fields methods := by
  have hc := Selection.readable_of_parse hparsed
  have hagree : (facts.getD s.facts).Agree s.model (facts'.getD s.facts) := by
    obtain rfl | ⟨given, given', rfl, rfl, hgiven⟩ := hfacts
    · exact ⟨fun _ _ => rfl, fun _ _ => rfl, fun _ _ => rfl⟩
    · exact hgiven.agree hc.denotes
  have hmethods : Respelled r.candidate.methods r'.candidate.methods := hr.methods
  obtain ⟨names', signatures', issues', happroved', hnames, hdenoted, hdenoted'⟩ :=
    Verdict.exists_approved_of_respelled hc hagree hmethods hr.fields h.approved
  obtain ⟨body, hbody, -⟩ := JavaSource.exists_primaryBody_of_parse hparsed
  obtain ⟨_, _, hbacking⟩ := Verdict.backing_of_decide h.approved
  obtain ⟨_, _, hbacking'⟩ := Verdict.backing_of_decide happroved'
  exact ⟨names', signatures', issues', hr.newClass ▸ h.unclaimed, happroved',
    resolveFields_congr hbody hbacking.fields_nodup hbacking'.fields_nodup hnames h.foundFields,
    resolveMethods_congr hbody hdenoted hdenoted' h.foundMethods, h.unrelated⟩

-- How the members are moved does not depend on how they were asked for.
theorem Carried.congr {moved : List MovedMethod} {result : Extracted}
    (h : Carried settings r s fields methods moved result) (hnewClass : r.newClass = r'.newClass)
    (hpath : r.path = r'.path) : Carried settings r' s fields methods moved result := by
  obtain ⟨newClass, path, methods', fields'⟩ := r
  obtain ⟨newClass', path', methods'', fields''⟩ := r'
  obtain rfl : newClass = newClass' := hnewClass
  obtain rfl : path = path' := hpath
  exact ⟨h.movedMethods, h.patched, h.newSource, h.newPath, h.newParses, h.oldParses⟩

theorem extract_of_respelled {result : Extracted} (hr : r.Respells r')
    (hfacts : Facts.SameUpToKeys facts facts') (h : extract settings r facts source = .ok o)
    (hresult : o.result = some result) :
    ∃ o', extract settings r' facts' source = .ok o' ∧ o'.result = some result := by
  obtain ⟨hdeclarable, s, names, signatures, fields, methods, moved, hparsed, hchosen, hcarried⟩ :=
    exists_of_extract h hresult
  obtain ⟨names', signatures', issues', hchosen'⟩ :=
    exists_chosen_of_respelled hparsed hr hfacts hchosen
  have hcarried' := hcarried.congr hr.newClass hr.path
  rw [parseFor, hr.path] at hparsed
  rw [hr.newClass] at hdeclarable
  exact ⟨_, hcarried'.extract_eq hchosen' hdeclarable hparsed, rfl⟩

-- A method with an array as its parameter, and the facts that it calls a static method.
def arraySource : String := "class A\x7bvoid m(int[]a)\x7bk();\x7dstatic void k()\x7b\x7d\x7d"

def arrayRequest (methods : List String) : Request := ⟨"B", "A.java", methods, []⟩

def arrayFacts (key : String) : Facts := ⟨.ofList [(key, .ofList ["k"])], .empty, .empty⟩

theorem exists_extract_array : ∃ o result,
    extract {} (arrayRequest ["m(int[])"]) (some (arrayFacts "m(int[])")) arraySource = .ok o ∧
      o.result = some result := by
  have hprepare : prepare? {} (arrayRequest ["m(int[])"]) (some (arrayFacts "m(int[])"))
      arraySource = some ([.ofText ⟨22, 28⟩ "\x7b\n        b.m(a);\n    \x7d",
        .insertion 8 "\n    private B b = new B();\n"],
      "class B \x7b\n    void m(int[]a)\x7bA.k();\x7d\n\x7d\n") := by
    decide +kernel
  have happly : Patch.apply ⟨[.ofText ⟨22, 28⟩ "\x7b\n        b.m(a);\n    \x7d",
      .insertion 8 "\n    private B b = new B();\n"]⟩ arraySource = .ok
      "class A\x7b\n    private B b = new B();\nvoid m(int[]a)\x7b\n        b.m(a);\n    \x7dstatic void k()\x7b\x7d\x7d" := by
    cbv
  obtain ⟨o, hextract, hresult⟩ :=
    extract_of_prepare? hprepare happly (by decide +kernel) (by decide +kernel)
  exact ⟨o, _, hextract, hresult⟩

theorem respells_arrayFacts : (arrayFacts "m(int[])").Respells (arrayFacts "m(int [] a)") where
  calls := ⟨⟨by decide +kernel, by decide +kernel⟩, ⟨by decide +kernel, by decide +kernel⟩,
    by unfold Facts.Within; decide +kernel, by unfold Facts.Within; decide +kernel⟩
  accesses := ⟨⟨nofun, nofun⟩, ⟨nofun, nofun⟩, nofun, nofun⟩
  types := ⟨⟨nofun, nofun⟩, ⟨nofun, nofun⟩, nofun, nofun⟩

theorem extract_of_respelled_array : ∃ o o' result,
    extract {} (arrayRequest ["m(int[])"]) (some (arrayFacts "m(int[])")) arraySource = .ok o ∧
      o.result = some result ∧
        extract {} (arrayRequest ["m(int [] a)", "m(int[])"]) (some (arrayFacts "m(int [] a)"))
            arraySource = .ok o' ∧
          o'.result = some result := by
  obtain ⟨o, result, hextract, hresult⟩ := exists_extract_array
  have hr : (arrayRequest ["m(int[])"]).Respells (arrayRequest ["m(int [] a)", "m(int[])"]) :=
    ⟨rfl, rfl, ⟨by decide +kernel, by decide +kernel, by decide +kernel, by decide +kernel⟩,
      fun _ => Iff.rfl⟩
  obtain ⟨o', hextract', hresult'⟩ :=
    extract_of_respelled hr (.inr ⟨_, _, rfl, rfl, respells_arrayFacts⟩) hextract hresult
  exact ⟨o, o', result, hextract, hresult, hextract', hresult'⟩

end Extraction

end ClassSplit
