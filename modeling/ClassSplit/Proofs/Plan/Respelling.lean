import ClassSplit.Proofs.Model.Respelling
import ClassSplit.Proofs.Plan.Verdict

/-!
Requests that are spelled in another way. Two selections that denote the same methods, and that know
the same methods of the class, grow alike: what a round adds differs in the order of the names that
are called only, and methods with different names have no spelling in common. The plans for two
requests that differ in order, repetition and spelling therefore have the same members. Main
statements: `Alike.repair` and `exists_approved_of_respelled`.
-/

namespace ClassSplit

open Signature

-- Two lists of signatures that differ in order, repetition and spelling.
structure Respelled (texts texts' : List String) : Prop where
  wellNested : ∀ text ∈ texts, WellNested text
  wellNested' : ∀ text ∈ texts', WellNested text
  within : ∀ text ∈ texts, ∃ text' ∈ texts',
    canonicalSignature text' = canonicalSignature text
  within' : ∀ text' ∈ texts', ∃ text ∈ texts,
    canonicalSignature text = canonicalSignature text'

theorem Respelled.symm {texts texts' : List String} (h : Respelled texts texts') :
    Respelled texts' texts :=
  ⟨h.wellNested', h.wellNested, h.within', h.within⟩

section Distinct

variable {α κ : Type} [DecidableEq κ]

theorem map_distinctOn (key : α → κ) (xs : List α) :
    (distinctOn key xs).map key = distinctOn id (xs.map key) := by
  induction xs with
  | nil => rfl
  | cons x xs ih =>
    rw [distinctOn, List.map_cons, List.map_cons, distinctOn, ← ih, List.filter_map]
    rfl

-- What is repeated as a whole is not there more than once.
theorem distinctOn_flatMap_filter [DecidableEq α] {f : κ → List α} (k : κ) (ks : List κ) :
    distinctOn id ((ks.filter (· = k)).flatMap f) = if k ∈ ks then distinctOn id (f k) else [] := by
  induction ks with
  | nil => rfl
  | cons k' ks ih =>
    by_cases hk : k' = k
    case pos =>
      subst hk
      rw [List.filter_cons_of_pos (by simp), List.flatMap_cons, if_pos List.mem_cons_self]
      rw [distinctOn_id_eq_eraseDups] at ih ⊢
      rw [distinctOn_id_eq_eraseDups, List.eraseDups_append]
      have hnone : ((ks.filter (· = k')).flatMap f).removeAll (f k') = [] := by
        refine List.filter_eq_nil_iff.mpr ?_
        intro x hx
        obtain ⟨k, hk, hmem⟩ := List.mem_flatMap.mp hx
        obtain rfl : k = k' := by simpa using (List.mem_filter.mp hk).right
        simpa using hmem
      rw [hnone]
      simp
    case neg =>
      rw [List.filter_cons_of_neg (by simpa using hk), ih]
      simp [Ne.symm hk]

end Distinct

namespace Facts

-- Facts that say the same of the methods of a class.
structure Agree (c : ClassModel) (facts facts' : Facts) : Prop where
  callsOf_eq : ∀ m ∈ c.properMethods, facts.callsOf m = facts'.callsOf m
  accessesOf_eq : ∀ m ∈ c.properMethods, facts.accessesOf m = facts'.accessesOf m
  typesOf_eq : ∀ m ∈ c.properMethods, facts.typesOf m = facts'.typesOf m

end Facts

namespace Selection

variable {c : ClassModel} {facts facts' : Facts} {s s' : Selection} {m : Method} {name : String}

-- The signatures that stand for methods of a class.
def Belongs (c : ClassModel) (text : String) : Prop := ∃ m ∈ c.properMethods, text = m.signature

-- Two selections that denote the same methods and know the same methods of a class.
structure Alike (c : ClassModel) (s s' : Selection) : Prop where
  denoted : ∀ text ∈ s.methods, ∃ text' ∈ s'.methods, c.findMethod? text' = c.findMethod? text
  denoted' : ∀ text' ∈ s'.methods, ∃ text ∈ s.methods, c.findMethod? text = c.findMethod? text'
  known : SignatureSet.AgreeOn (Belongs c) s.known s'.known

-- The class that methods are selected from: its signatures stand for its methods, which stand at
-- different places.
structure Readable (c : ClassModel) : Prop where
  denotes : ∀ m ∈ c.properMethods, ∃ y : Signature, y.Denotes m
  eq_of_span_eq : ∀ m ∈ c.properMethods, ∀ n ∈ c.properMethods, m.span = n.span → m = n

theorem readable_of_parse {source : String} {wanted : Option String} {s : JavaSource}
    (h : JavaSource.parse source wanted = .ok s) : Readable s.model where
  denotes _ hm := JavaSource.exists_denotes_of_parse h hm
  eq_of_span_eq _ hm _ hn :=
    JavaSource.eq_of_span_eq_of_parse h (List.mem_filter.mp hm).left (List.mem_filter.mp hn).left

def nameOf (text : String) : String := (ofString text).name

-- What a method needs of a name: the private methods that are not known.
def unknown (c : ClassModel) (s : Selection) (callee : String) : List String :=
  ((c.methodsNamed callee).filter fun target =>
    target.isPrivate && !s.known.contains target.signature).map (·.signature)

def calledNames (c : ClassModel) (facts : Facts) (s : Selection) : List String :=
  (resolve c s.methods).flatMap fun m => (facts.callsOf m).toList

theorem map_fst_missing (c : ClassModel) (facts : Facts) (s : Selection) :
    (s.missing c facts).map Prod.fst =
      distinctOn id ((calledNames c facts s).flatMap (unknown c s)) := by
  rw [missing, map_distinctOn, List.map_flatMap, calledNames, List.flatMap_assoc]
  simp only [missingCallees, List.map_flatMap, List.map_map]
  rfl

theorem belongs_of_mem_unknown {text : String} (h : text ∈ unknown c s name) :
    ∃ m ∈ c.properMethods, m.name = name ∧ text = m.signature := by
  obtain ⟨m, hm, rfl⟩ := List.mem_map.mp h
  obtain ⟨hproper, hname⟩ := ClassModel.mem_methodsNamed.mp (List.mem_filter.mp hm).left
  exact ⟨m, hproper, hname, rfl⟩

theorem belongs_of_mem_missing {text : String} (h : text ∈ (s.missing c facts).map Prod.fst) :
    Belongs c text := by
  rw [map_fst_missing] at h
  obtain ⟨name, -, h⟩ := List.mem_flatMap.mp (mem_of_mem_distinctOn h)
  obtain ⟨m, hm, -, rfl⟩ := belongs_of_mem_unknown h
  exact ⟨m, hm, rfl⟩

-- What is missing under one name is missing in the order in which the class declares it.
theorem filter_missing (hc : Readable c) (name : String) :
    ((s.missing c facts).map Prod.fst).filter (nameOf · = name) =
      if name ∈ calledNames c facts s then distinctOn id (unknown c s name) else [] := by
  have hgroup (callee : String) : (unknown c s callee).filter (nameOf · = name) =
      if callee = name then unknown c s callee else [] := by
    have hname : ∀ text ∈ unknown c s callee, nameOf text = callee := by
      intro text htext
      obtain ⟨m, hm, rfl, rfl⟩ := belongs_of_mem_unknown htext
      obtain ⟨y, hy⟩ := hc.denotes m hm
      exact hy.name_ofString
    split
    case isTrue h =>
      refine List.filter_eq_self.mpr ?_
      intro text htext
      simpa using (hname text htext).trans h
    case isFalse h =>
      refine List.filter_eq_nil_iff.mpr ?_
      intro text htext
      simpa [hname text htext] using h
  have hnames (names : List String) :
      (names.flatMap fun callee => if callee = name then unknown c s callee else []) =
        (names.filter (· = name)).flatMap (unknown c s) := by
    induction names with
    | nil => rfl
    | cons callee names ih =>
      rw [List.flatMap_cons, ih]
      by_cases h : callee = name
      · simp [h]
      · simp [h]
  rw [map_fst_missing, filter_distinctOn_id, List.filter_flatMap]
  simp only [hgroup]
  rw [hnames, distinctOn_flatMap_filter]

theorem known_foldl_add (s : Selection) (texts : List String) :
    (texts.foldl add s).known = texts.foldl SignatureSet.insert s.known := by
  induction texts generalizing s with
  | nil => rfl
  | cons text texts ih => rw [List.foldl_cons, List.foldl_cons, ih, add]

namespace Alike

theorem symm (h : Alike c s s') : Alike c s' s :=
  ⟨h.denoted', h.denoted, fun text htext => (h.known text htext).symm⟩

theorem mem_resolve (h : Alike c s s') (hc : Readable c) :
    m ∈ resolve c s.methods ↔ m ∈ resolve c s'.methods := by
  rw [mem_resolve_of_spans hc.eq_of_span_eq, mem_resolve_of_spans hc.eq_of_span_eq]
  constructor
  case mp =>
    rintro ⟨text, htext, hm⟩
    obtain ⟨text', htext', heq⟩ := h.denoted text htext
    exact ⟨text', htext', heq.trans hm⟩
  case mpr =>
    rintro ⟨text', htext', hm⟩
    obtain ⟨text, htext, heq⟩ := h.denoted' text' htext'
    exact ⟨text, htext, heq.trans hm⟩

theorem contains_eq (h : Alike c s s') (hm : m ∈ c.properMethods) :
    s.known.contains m.signature = s'.known.contains m.signature := h.known _ ⟨m, hm, rfl⟩

theorem unknown_eq (h : Alike c s s') (name : String) : unknown c s name = unknown c s' name := by
  refine congrArg (List.map Method.signature) (List.filter_congr ?_)
  intro m hm
  rw [h.contains_eq (ClassModel.mem_methodsNamed.mp hm).left]

section

variable (h : Alike c s s') (hc : Readable c) (hfacts : facts.Agree c facts')

include h hc hfacts

theorem mem_calledNames :
    name ∈ calledNames c facts s ↔ name ∈ calledNames c facts' s' := by
  simp only [calledNames, List.mem_flatMap, h.mem_resolve hc]
  refine exists_congr fun m => and_congr_right fun hm => ?_
  rw [hfacts.callsOf_eq m (mem_properMethods_of_mem_resolve hm)]

theorem filter_missing_eq (name : String) :
    ((s.missing c facts).map Prod.fst).filter (nameOf · = name) =
      ((s'.missing c facts').map Prod.fst).filter (nameOf · = name) := by
  rw [filter_missing hc, filter_missing hc, h.unknown_eq]
  simp only [h.mem_calledNames hc hfacts]

theorem mem_missing_iff {text : String} :
    text ∈ (s.missing c facts).map Prod.fst ↔ text ∈ (s'.missing c facts').map Prod.fst := by
  have hfilter := h.filter_missing_eq hc hfacts (nameOf text)
  have hmem (texts : List String) :
      text ∈ texts ↔ text ∈ texts.filter (nameOf · = nameOf text) := by
    simp [List.mem_filter]
  rw [hmem, hfilter, ← hmem]

theorem missing_eq_nil_iff : s.missing c facts = [] ↔ s'.missing c facts' = [] := by
  rw [← List.map_eq_nil_iff (f := Prod.fst), ← List.map_eq_nil_iff (f := Prod.fst),
    List.eq_nil_iff_forall_not_mem, List.eq_nil_iff_forall_not_mem]
  simp only [h.mem_missing_iff hc hfacts]

-- What a round adds to two selections.
theorem round : Alike c (((s.missing c facts).map Prod.fst).foldl add s)
    (((s'.missing c facts').map Prod.fst).foldl add s') where
  denoted := by
    intro text htext
    rw [methods_foldl_add, List.mem_append] at htext
    rw [methods_foldl_add]
    obtain htext | htext := htext
    · obtain ⟨text', htext', heq⟩ := h.denoted text htext
      exact ⟨text', List.mem_append_left _ htext', heq⟩
    · exact ⟨text, List.mem_append_right _ ((h.mem_missing_iff hc hfacts).mp htext), rfl⟩
  denoted' := by
    intro text htext
    rw [methods_foldl_add, List.mem_append] at htext
    rw [methods_foldl_add]
    obtain htext | htext := htext
    · obtain ⟨text', htext', heq⟩ := h.denoted' text htext
      exact ⟨text', List.mem_append_left _ htext', heq⟩
    · exact ⟨text, List.mem_append_right _ ((h.mem_missing_iff hc hfacts).mpr htext), rfl⟩
  known := by
    rw [known_foldl_add, known_foldl_add]
    refine SignatureSet.agreeOn_foldl_insert ?_ h.known
      (fun _ => belongs_of_mem_missing) (fun _ => belongs_of_mem_missing)
      (h.filter_missing_eq hc hfacts)
    rintro _ _ ⟨m, hm, rfl⟩ ⟨n, hn, rfl⟩ ⟨f, hmf, hnf⟩
    obtain ⟨y, hy⟩ := hc.denotes m hm
    obtain ⟨z, hz⟩ := hc.denotes n hn
    rw [nameOf, nameOf, hy.name_ofString, hz.name_ofString]
    exact hy.name_eq_of_mem_forms hz hmf hnf

end

theorem repair (h : Alike c s s') (hc : Readable c) (hfacts : facts.Agree c facts')
    (issues issues' : List Issue) (rounds : Nat) :
    (s.repair c facts issues rounds).settled = (s'.repair c facts' issues' rounds).settled ∧
      Alike c (s.repair c facts issues rounds).selection
        (s'.repair c facts' issues' rounds).selection := by
  induction rounds generalizing s s' issues issues' with
  | zero => exact ⟨rfl, h⟩
  | succ rounds ih =>
    simp only [Selection.repair]
    split
    case h_1 hnil =>
      rw [(h.missing_eq_nil_iff hc hfacts).mp hnil]
      exact ⟨rfl, h⟩
    case h_2 hne =>
      split
      case h_1 hnil' => exact absurd ((h.missing_eq_nil_iff hc hfacts).mpr hnil') hne
      case h_2 => exact ih (h.round hc hfacts) _ _

end Alike

theorem contains_ofList_iff {y : Signature} {texts : List String} (hy : y.Denotes m)
    (hw : ∀ text ∈ texts, WellNested text) :
    (SignatureSet.ofList texts).contains m.signature = true ↔
      ∃ text ∈ texts, (ofString text).bareForm = (ofString m.signature).bareForm := by
  rw [SignatureSet.contains_iff]
  constructor
  case mp =>
    rintro ⟨f, hm, hforms⟩
    obtain ⟨text, htext, hf⟩ := SignatureSet.exists_mem_of_mem_forms hforms
    have hmatch : signaturesMatch m.signature text = true :=
      agrees_iff_exists.mpr (.inr ⟨f, hm, hf⟩)
    exact ⟨text, htext, ((hy.signaturesMatch_iff (hw text htext)).mp hmatch).symm⟩
  case mpr =>
    rintro ⟨text, htext, hbare⟩
    have hmem := SignatureSet.bareForm_mem_forms_ofList (fun u hu => (hw u hu).wellFormed) text
      htext
    rw [hbare] at hmem
    exact ⟨_, bareForm_mem_forms _, hmem⟩

theorem alike_ofRequest {texts texts' : List String} (hc : Readable c)
    (h : Respelled texts texts') : Alike c (ofRequest texts) (ofRequest texts') := by
  have hdenoted {texts texts' : List String} (h : Respelled texts texts') :
      ∀ text ∈ (ofRequest texts).methods, ∃ text' ∈ (ofRequest texts').methods,
        c.findMethod? text' = c.findMethod? text := by
    intro text htext
    rw [mem_methods_ofRequest] at htext
    obtain ⟨text', htext', hcanonical⟩ := h.within text htext
    exact ⟨text', mem_methods_ofRequest.mpr htext', ClassModel.findMethod?_congr
      (h.wellNested' text' htext') (h.wellNested text htext) hcanonical⟩
  have hknown {texts texts' : List String} (h : Respelled texts texts') {m : Method} {y : Signature}
      (hy : y.Denotes m) (hcontains : (SignatureSet.ofList texts).contains m.signature = true) :
      (SignatureSet.ofList texts').contains m.signature = true := by
    obtain ⟨text, htext, hbare⟩ := (contains_ofList_iff hy h.wellNested).mp hcontains
    obtain ⟨text', htext', hcanonical⟩ := h.within text htext
    refine (contains_ofList_iff hy h.wellNested').mpr ⟨text', htext', ?_⟩
    rw [(h.wellNested' text' htext').ofString_eq (h.wellNested text htext) hcanonical, hbare]
  refine ⟨hdenoted h, hdenoted h.symm, ?_⟩
  rintro _ ⟨m, hm, rfl⟩
  obtain ⟨y, hy⟩ := hc.denotes m hm
  exact Bool.eq_iff_iff.mpr ⟨hknown h hy, hknown h.symm hy⟩

end Selection

namespace Verdict

open Selection

variable {c : ClassModel} {facts facts' : Facts} {rounds : Nat} {candidate candidate' : Candidate}
  {fields methods : List String} {issues : List Issue} {m : Method} {s s' : Selection}

theorem blockers_eq_nil_iff {known : SignatureSet} {methods : List Method} :
    blockers c facts known methods fields = [] ↔
      (∀ m ∈ methods, abstractIssues c facts known m = [] ∧ methodTypeIssues c facts m = []) ∧
        ∀ name ∈ fields, fieldTypeIssues c name = [] := by
  simp only [blockers, List.append_eq_nil_iff, List.flatMap_eq_nil_iff, forall_and]

theorem abstractIssues_eq (h : Alike c s s') (hfacts : facts.Agree c facts')
    (hm : m ∈ c.properMethods) :
    abstractIssues c facts s.known m = abstractIssues c facts' s'.known m := by
  have hcalled (callee : String) :
      (c.methodsNamed callee).filter (fun t => t.isAbstract && !s.known.contains t.signature) =
        (c.methodsNamed callee).filter fun t => t.isAbstract && !s'.known.contains t.signature := by
    refine List.filter_congr ?_
    intro t ht
    rw [h.contains_eq (ClassModel.mem_methodsNamed.mp ht).left]
  simp only [abstractIssues, hfacts.callsOf_eq m hm, hcalled]

theorem methodTypeIssues_eq (hfacts : facts.Agree c facts') (hm : m ∈ c.properMethods) :
    methodTypeIssues c facts m = methodTypeIssues c facts' m := by
  rw [methodTypeIssues, methodTypeIssues, hfacts.typesOf_eq m hm]

-- The plan for a request in another spelling has the same members.
theorem exists_approved_of_respelled (hc : Readable c) (hfacts : facts.Agree c facts')
    (hmethods : Respelled candidate.methods candidate'.methods)
    (hfields : ∀ name, name ∈ candidate.fields ↔ name ∈ candidate'.fields)
    (h : decide c facts rounds candidate = .approved fields methods issues) :
    ∃ fields' methods' issues',
      decide c facts' rounds candidate' = .approved fields' methods' issues' ∧
        (∀ name, name ∈ fields ↔ name ∈ fields') ∧
        (∀ text ∈ methods, ∃ text' ∈ methods', c.findMethod? text' = c.findMethod? text) ∧
          ∀ text' ∈ methods', ∃ text ∈ methods, c.findMethod? text = c.findMethod? text' := by
  have hsettled := settled_of_isApproved (by rw [h]; rfl)
  obtain ⟨added, hs, hplan⟩ := decide_eq_planOf hsettled
  obtain ⟨hsame, halike⟩ := (alike_ofRequest hc hmethods).repair hc hfacts [] [] rounds
  rw [hsame] at hsettled
  obtain ⟨added', hs', hplan'⟩ := decide_eq_planOf hsettled
  rw [h, planOf] at hplan
  generalize ((ofRequest candidate.methods).repair c facts [] rounds).selection = s at *
  generalize ((ofRequest candidate'.methods).repair c facts' [] rounds).selection = s' at *
  obtain ⟨hblockers, rfl, rfl, -⟩ := planWith_eq_approved hplan.symm
  have hrequested (name : String) :
      name ∈ candidate.fields.eraseDups ↔ name ∈ candidate'.fields.eraseDups := by
    rw [List.mem_eraseDups, List.mem_eraseDups, hfields]
  have hunblocked : blockers c facts' s'.known (resolve c s'.methods)
      candidate'.fields.eraseDups = [] := by
    obtain ⟨hmembers, htypes⟩ := blockers_eq_nil_iff.mp hblockers
    refine blockers_eq_nil_iff.mpr ⟨?_, fun name hname => htypes name ((hrequested name).mpr hname)⟩
    intro m hm
    have hproper := mem_properMethods_of_mem_resolve hm
    rw [← abstractIssues_eq halike hfacts hproper, ← methodTypeIssues_eq hfacts hproper]
    exact hmembers m ((halike.mem_resolve hc).mpr hm)
  rw [planOf, hunblocked] at hplan'
  refine ⟨_, _, _, hplan', ?_, halike.denoted, halike.denoted'⟩
  intro name
  simp only [List.mem_append, mem_map_staticAdditions, hrequested, halike.mem_resolve hc]
  refine or_congr_right (and_congr_right fun _ => and_congr_right fun _ => ?_)
  refine exists_congr fun m => and_congr_right fun hm => ?_
  rw [hfacts.accessesOf_eq m (mem_properMethods_of_mem_resolve hm)]

end Verdict

end ClassSplit
