import ClassSplit.Proofs.Signature.Formatting

/-!
Spellings of spellings. Each spelling of a signature is the canonical spelling of one with the same
types up to brackets and `...`, and reading it again leads to no spelling that the signature does
not have. Main statements: `exists_canonicalForm_of_mem_forms`, `forms_subset` and
`SignatureText.closedForms_text`.
-/

namespace ClassSplit

open Text Signature

namespace ParamType

variable {p q : ParamType} {isLast : Bool} {u : String}

-- The same type with as many dimensions, whether or not `...` stands for one of them.
structure Respells (p q : ParamType) : Prop where
  base : q.base = p.base
  dims : q.totalDims = p.totalDims

-- The same type with as many dimensions or with none.
structure Reduces (p q : ParamType) : Prop where
  base : q.base = p.base
  dims : q.totalDims = p.totalDims ∨ q.totalDims = 0

theorem Respells.reduces (h : p.Respells q) : p.Reduces q := ⟨h.base, .inl h.dims⟩

def asArray (p : ParamType) : ParamType := ⟨p.base, p.totalDims, false⟩

def asVariadic (p : ParamType) : ParamType := ⟨p.base, p.totalDims - 1, true⟩

def asBare (p : ParamType) : ParamType := ⟨p.base, 0, false⟩

theorem respells_asArray (p : ParamType) : p.Respells p.asArray := ⟨rfl, rfl⟩

theorem respells_asVariadic (h : p.totalDims ≠ 0) : p.Respells p.asVariadic :=
  ⟨rfl, Nat.succ_pred_eq_of_ne_zero h⟩

theorem reduces_asBare (p : ParamType) : p.Reduces p.asBare := ⟨rfl, .inr rfl⟩

theorem canonical_asArray (p : ParamType) :
    p.asArray.canonical = p.base ++ brackets p.totalDims := by
  simp [canonical, asArray]

theorem canonical_asVariadic (p : ParamType) :
    p.asVariadic.canonical = p.base ++ brackets (p.totalDims - 1) ++ "..." := by
  simp [canonical, asVariadic]

theorem canonical_asBare (p : ParamType) : p.asBare.canonical = p.base := by
  simp [canonical, asBare, brackets_zero]

theorem mem_spellings_iff :
    u ∈ p.spellings isLast ↔ u = p.asBare.canonical ∨
      p.totalDims ≠ 0 ∧ (u = p.asArray.canonical ∨ isLast = true ∧ u = p.asVariadic.canonical) := by
  rw [canonical_asArray, canonical_asVariadic, canonical_asBare, spellings]
  split_ifs with hdims hlast
  · simp [hdims]
  · simp only [hdims, hlast, ne_eq, not_false_eq_true, true_and, List.cons_append, List.nil_append,
      List.mem_cons, List.not_mem_nil, or_false]
    tauto
  · simp [hdims, hlast, or_comm]

-- Each spelling is the canonical one of a type.
theorem exists_canonical_of_mem_spellings (h : u ∈ p.spellings isLast) :
    ∃ q, q.canonical = u ∧ p.Reduces q := by
  obtain rfl | ⟨hdims, rfl | ⟨-, rfl⟩⟩ := mem_spellings_iff.mp h
  · exact ⟨_, rfl, p.reduces_asBare⟩
  · exact ⟨_, rfl, p.respells_asArray.reduces⟩
  · exact ⟨_, rfl, (respells_asVariadic hdims).reduces⟩

theorem exists_canonical_bracketed (p : ParamType) (isLast : Bool) :
    ∃ q, q.canonical = bracketed (p.spellings isLast) ∧ p.Respells q := by
  refine ⟨p.asArray, ?_, p.respells_asArray⟩
  rw [canonical_asArray, spellings]
  split_ifs with hdims
  · simp [bracketed, hdims, brackets_zero]
  · rfl
  · rfl

theorem exists_canonical_dotted (p : ParamType) (isLast : Bool) :
    ∃ q, q.canonical = dotted (p.spellings isLast) ∧ p.Respells q := by
  by_cases h : p.totalDims ≠ 0 ∧ isLast = true
  case pos =>
    refine ⟨p.asVariadic, ?_, respells_asVariadic h.left⟩
    rw [canonical_asVariadic, spellings, if_neg h.left, if_pos h.right]
    rfl
  case neg =>
    obtain ⟨q, hq, hrespells⟩ := p.exists_canonical_bracketed isLast
    refine ⟨q, hq.trans ?_, hrespells⟩
    rw [dotted, if_neg]
    · rfl
    · rw [spellings]
      split_ifs with hdims hlast
      · simp
      · exact absurd ⟨hdims, hlast⟩ h
      · simp

theorem spellings_congr (h : p.Respells q) (isLast : Bool) : q.spellings isLast = p.spellings isLast := by
  rw [spellings, spellings, h.base, h.dims]

-- No spelling is gained where dimensions are left out.
theorem mem_spellings_of_reduces (h : p.Reduces q) (hu : u ∈ q.spellings isLast) :
    u ∈ p.spellings isLast := by
  obtain ⟨hbase, hdims | hdims⟩ := h
  · rwa [spellings_congr ⟨hbase, hdims⟩] at hu
  · rw [spellings, if_pos hdims, List.mem_singleton, hbase] at hu
    exact hu ▸ p.base_mem_spellings isLast

theorem canonical_mem_spellings (h : p.variadic = true → isLast = true) :
    p.canonical ∈ p.spellings isLast := by
  rw [mem_spellings_iff]
  obtain ⟨base, dims, variadic⟩ := p
  cases variadic with
  | true => exact .inr ⟨Nat.succ_ne_zero dims, .inr ⟨h rfl, rfl⟩⟩
  | false =>
    by_cases hdims : dims = 0
    case pos => exact .inl (by rw [hdims]; rfl)
    case neg => exact .inr ⟨hdims, .inl rfl⟩

end ParamType

namespace Signature

variable {s t : Signature} {ps qs : List ParamType} {f g : String}

theorem forall₂_mapIdx_of_forall₂ {α β γ δ : Type} {R : α → β → Prop} {S : γ → δ → Prop}
    {f : Nat → α → γ} {g : Nat → β → δ} {xs : List α} {ys : List β} (h : List.Forall₂ R xs ys)
    (hfg : ∀ i x y, R x y → S (f i x) (g i y)) : List.Forall₂ S (xs.mapIdx f) (ys.mapIdx g) := by
  induction h generalizing f g with
  | nil => exact .nil
  | cons hxy _ ih =>
    rw [List.mapIdx_cons, List.mapIdx_cons]
    exact .cons (hfg 0 _ _ hxy) (ih fun i => hfg (i + 1))

-- What is written for each parameter in turn is the canonical spelling of a type for each.
theorem exists_map_canonical {R : ParamType → ParamType → Prop} {P : String → List String → Prop}
    {choices : Nat → ParamType → List String} {us : List String}
    (h : ∀ i p u, P u (choices i p) → ∃ q, q.canonical = u ∧ R p q)
    (hus : List.Forall₂ P us (ps.mapIdx choices)) :
    ∃ qs, qs.map ParamType.canonical = us ∧ List.Forall₂ R ps qs := by
  induction ps generalizing choices us with
  | nil =>
    rw [List.mapIdx_nil, List.forall₂_nil_right_iff] at hus
    exact ⟨[], hus.symm, .nil⟩
  | cons p ps ih =>
    rw [List.mapIdx_cons] at hus
    obtain ⟨u, others, hu, hothers, rfl⟩ := List.forall₂_cons_right_iff.mp hus
    obtain ⟨q, rfl, hq⟩ := h 0 p u hu
    obtain ⟨qs, rfl, hqs⟩ := ih (fun i => h (i + 1)) hothers
    exact ⟨q :: qs, rfl, .cons hq hqs⟩

-- The same signature with its types spelled in another way.
structure Respells (s t : Signature) : Prop where
  name : t.name = s.name
  params : List.Forall₂ ParamType.Respells s.params t.params

-- The same signature with dimensions left out.
structure Reduces (s t : Signature) : Prop where
  name : t.name = s.name
  params : List.Forall₂ ParamType.Reduces s.params t.params

theorem Respells.reduces (h : s.Respells t) : s.Reduces t :=
  ⟨h.name, h.params.imp fun _ _ => ParamType.Respells.reduces⟩

theorem render_congr (h : t.name = s.name) (us : List String) : t.render us = s.render us := by
  rw [render, render, h]

theorem Respells.paramSpellings_eq (h : s.Respells t) : t.paramSpellings = s.paramSpellings := by
  have hspellings : List.Forall₂ Eq s.paramSpellings t.paramSpellings := by
    rw [paramSpellings, paramSpellings, h.params.length_eq]
    exact forall₂_mapIdx_of_forall₂ h.params fun i p q hpq =>
      (ParamType.spellings_congr hpq _).symm
  rw [List.forall₂_eq_eq_eq] at hspellings
  exact hspellings.symm

-- Each form is the canonical spelling of a signature with dimensions left out.
theorem exists_canonicalForm {R : ParamType → ParamType → Prop} {P : String → List String → Prop}
    {us : List String}
    (h : ∀ isLast p u, P u (p.spellings isLast) → ∃ q, q.canonical = u ∧ R p q)
    (hus : List.Forall₂ P us s.paramSpellings) :
    ∃ t : Signature, t.canonicalForm = s.render us ∧ t.name = s.name ∧ List.Forall₂ R s.params t.params := by
  obtain ⟨qs, rfl, hqs⟩ := exists_map_canonical (fun i => h _) hus
  exact ⟨⟨s.name, qs⟩, rfl, rfl, hqs⟩

theorem exists_canonicalForm_of_pick {pick : List String → String}
    (h : ∀ (p : ParamType) isLast, ∃ q, q.canonical = pick (p.spellings isLast) ∧ p.Respells q) :
    ∃ t, t.canonicalForm = s.render (s.paramSpellings.map pick) ∧ s.Respells t := by
  have hpicked : List.Forall₂ (fun u choices => u = pick choices) (s.paramSpellings.map pick)
      s.paramSpellings :=
    List.forall₂_map_left_iff.mpr (List.forall₂_same.mpr fun _ _ => rfl)
  obtain ⟨t, ht, hname, hparams⟩ := exists_canonicalForm (fun isLast p u hu => hu ▸ h p isLast) hpicked
  exact ⟨t, ht, hname, hparams⟩

theorem countP_le_of_reduces (h : List.Forall₂ ParamType.Reduces ps qs) :
    qs.countP (0 < ·.totalDims) ≤ ps.countP (0 < ·.totalDims) := by
  induction h with
  | nil => exact Nat.le_refl 0
  | @cons p q ps qs hpq _ ih =>
    rw [List.countP_cons, List.countP_cons]
    refine Nat.add_le_add ih ?_
    split_ifs with hq hp
    · exact Nat.le_refl 1
    · obtain ⟨-, hdims | hdims⟩ := hpq
      · exact absurd (hdims ▸ hq) hp
      · rw [hdims] at hq
        cases hq
    · exact Nat.zero_le 1
    · exact Nat.le_refl 0

theorem arrayParams_le (h : s.Reduces t) : t.arrayParams ≤ s.arrayParams :=
  countP_le_of_reduces h.params

theorem mem_allForms_of_reduces (h : s.Reduces t) (hg : g ∈ t.allForms) : g ∈ s.allForms := by
  obtain ⟨us, hus, rfl⟩ := List.mem_map.mp (NameSet.mem_ofList.mp hg)
  have hspellings : List.Forall₂ (fun choices choices' => ∀ u ∈ choices, u ∈ choices')
      t.paramSpellings s.paramSpellings := by
    rw [paramSpellings, paramSpellings, h.params.length_eq]
    exact (forall₂_mapIdx_of_forall₂ h.params fun i p q hpq u =>
      ParamType.mem_spellings_of_reduces hpq).flip
  rw [render_congr h.name]
  exact NameSet.mem_ofList.mpr (List.mem_map_of_mem
    (mem_selections.mpr (forall₂_of_mem_choices (mem_selections.mp hus) hspellings)))

theorem Respells.symm (h : s.Respells t) : t.Respells s :=
  ⟨h.name.symm, (h.params.imp fun _ _ hpq => ⟨hpq.base.symm, hpq.dims.symm⟩).flip⟩

theorem forms_eq_allForms (h : ¬maxExpandedArrays < s.arrayParams) : s.forms = s.allForms :=
  if_neg h

-- Spelled in another way a signature has the same spellings, its canonical one apart.
theorem mem_forms_of_respells (h : s.Respells t) (hcanonical : t.canonicalForm ∈ s.forms)
    (hg : g ∈ t.forms) : g ∈ s.forms := by
  have harrays : t.arrayParams = s.arrayParams :=
    Nat.le_antisymm (arrayParams_le h.reduces) (arrayParams_le h.symm.reduces)
  by_cases hmany : maxExpandedArrays < s.arrayParams
  case neg =>
    rw [forms_eq_allForms hmany]
    rw [forms_eq_allForms (harrays ▸ hmany)] at hg
    exact mem_allForms_of_reduces h.reduces hg
  case pos =>
    rw [forms, if_pos (harrays ▸ hmany), NameSet.mem_ofList, h.paramSpellings_eq] at hg
    simp only [render_congr h.name, List.mem_cons, List.not_mem_nil, or_false] at hg
    obtain hg | hg | hg | rfl := hg
    · rw [forms, if_pos hmany, NameSet.mem_ofList]
      simp [hg]
    · rw [forms, if_pos hmany, NameSet.mem_ofList]
      simp [hg]
    · rw [forms, if_pos hmany, NameSet.mem_ofList]
      simp [hg]
    · exact hcanonical

-- The signature with all dimensions left out.
def asBare (s : Signature) : Signature := ⟨s.name, s.params.map ParamType.asBare⟩

theorem reduces_asBare (s : Signature) : s.Reduces s.asBare :=
  ⟨rfl, List.forall₂_map_right_iff.mpr (List.forall₂_same.mpr fun p _ => p.reduces_asBare)⟩

theorem canonicalForm_asBare (s : Signature) : s.asBare.canonicalForm = s.bareForm := by
  rw [canonicalForm, asBare, bareForm, List.map_map, render_congr rfl]
  exact congrArg s.render (List.map_congr_left fun p _ => p.canonical_asBare)

-- It has one spelling only.
theorem eq_bareForm_of_mem_forms (hg : g ∈ s.asBare.forms) : g = s.bareForm := by
  have harrays : s.asBare.arrayParams = 0 := by
    refine List.countP_eq_zero.mpr ?_
    simp [asBare, ParamType.asBare, ParamType.totalDims]
  rw [forms_eq_allForms (by rw [harrays]; decide)] at hg
  obtain ⟨us, hus, rfl⟩ := List.mem_map.mp (NameSet.mem_ofList.mp hg)
  have hchoices : List.Forall₂ (fun choices q => ∀ u ∈ choices, u = ParamType.base q)
      s.asBare.paramSpellings s.asBare.params := by
    refine forall₂_mapIdx _ fun i q hq u hu => ?_
    obtain ⟨p, -, rfl⟩ := List.mem_map.mp hq
    exact List.mem_singleton.mp hu
  have hbases := forall₂_of_mem_choices (mem_selections.mp hus) hchoices
  have hus : us = s.params.map (·.base) := by
    rw [asBare, List.forall₂_map_right_iff] at hbases
    rw [← List.forall₂_eq_eq_eq, List.forall₂_map_right_iff]
    exact hbases
  rw [hus]
  rfl

-- Each form is the canonical spelling of a signature that has no other forms.
theorem exists_canonicalForm_of_mem_forms (hf : f ∈ s.forms) :
    ∃ t : Signature, t.canonicalForm = f ∧ s.Reduces t ∧ ∀ g ∈ t.forms, g ∈ s.forms := by
  by_cases hmany : maxExpandedArrays < s.arrayParams
  case neg =>
    rw [forms_eq_allForms hmany] at hf ⊢
    obtain ⟨us, hus, rfl⟩ := List.mem_map.mp (NameSet.mem_ofList.mp hf)
    obtain ⟨t, ht, hname, hparams⟩ := exists_canonicalForm
      (fun _ _ _ hu => ParamType.exists_canonical_of_mem_spellings hu) (mem_selections.mp hus)
    have hreduces : s.Reduces t := ⟨hname, hparams⟩
    refine ⟨t, ht, hreduces, fun g hg => ?_⟩
    rw [forms_eq_allForms fun h => hmany (Nat.lt_of_lt_of_le h (arrayParams_le hreduces))] at hg
    exact mem_allForms_of_reduces hreduces hg
  case pos =>
    have hall := hf
    rw [forms, if_pos hmany, NameSet.mem_ofList] at hall
    simp only [List.mem_cons, List.not_mem_nil, or_false] at hall
    obtain hpick | hpick | hpick | rfl := hall
    · obtain ⟨t, ht, hrespells⟩ := s.exists_canonicalForm_of_pick ParamType.exists_canonical_bracketed
      rw [← hpick] at ht
      exact ⟨t, ht, hrespells.reduces, fun g => mem_forms_of_respells hrespells (ht ▸ hf)⟩
    · obtain ⟨t, ht, hrespells⟩ := s.exists_canonicalForm_of_pick ParamType.exists_canonical_dotted
      rw [← hpick] at ht
      exact ⟨t, ht, hrespells.reduces, fun g => mem_forms_of_respells hrespells (ht ▸ hf)⟩
    · rw [map_bare_paramSpellings] at hpick
      refine ⟨s.asBare, s.canonicalForm_asBare.trans hpick.symm, s.reduces_asBare, fun g hg => ?_⟩
      rw [eq_bareForm_of_mem_forms hg]
      exact s.bareForm_mem_forms
    · exact ⟨s, rfl, ⟨rfl, List.forall₂_same.mpr fun p _ => ⟨rfl, .inl rfl⟩⟩, fun g hg => hg⟩

theorem canonicalForm_mem_forms (h : ∀ p ∈ s.params.dropLast, p.variadic = false) :
    s.canonicalForm ∈ s.forms := by
  by_cases hmany : maxExpandedArrays < s.arrayParams
  case pos =>
    rw [forms, if_pos hmany, NameSet.mem_ofList]
    simp
  case neg =>
    rw [forms_eq_allForms hmany]
    refine NameSet.mem_ofList.mpr (List.mem_map_of_mem (mem_selections.mpr ?_))
    refine List.forall₂_iff_get.mpr ⟨by simp [paramSpellings], fun i hi hi' => ?_⟩
    have hlength : i < s.params.length := by simpa using hi
    have hlast : s.params[i].variadic = true → (i + 1 == s.params.length) = true := by
      intro hv
      by_contra hne
      have hdrop : i < s.params.dropLast.length := by
        simp only [beq_iff_eq] at hne
        rw [List.length_dropLast]
        omega
      have hmem := List.getElem_mem hdrop
      rw [List.getElem_dropLast] at hmem
      rw [h _ hmem] at hv
      cases hv
    simpa [paramSpellings] using ParamType.canonical_mem_spellings hlast

theorem Reduces.exists_base_eq (h : s.Reduces t) {q : ParamType} (hq : q ∈ t.params) :
    ∃ p ∈ s.params, p.base = q.base := by
  have hbases : s.params.map (·.base) = t.params.map (·.base) :=
    map_eq_map_of_forall₂ (h.params.imp fun _ _ hpq => hpq.base.symm)
  exact List.mem_map.mp (hbases ▸ List.mem_map_of_mem hq)

theorem Reduces.nested (h : s.Reduces t) (hs : s.Nested) : t.Nested where
  name := h.name ▸ hs.name
  params q hq := by
    obtain ⟨p, hp, hbase⟩ := h.exists_base_eq hq
    obtain ⟨hname, hclosed⟩ := hs.params p hp
    exact ⟨hbase ▸ hname, hbase ▸ hclosed⟩

theorem Reduces.tidy (h : s.Reduces t) (hs : s.Tidy) : t.Tidy where
  name := h.name ▸ hs.name
  params q hq := by
    obtain ⟨p, hp, hbase⟩ := h.exists_base_eq hq
    obtain ⟨htight, hspanned⟩ := hs.params p hp
    exact ⟨hbase ▸ htight, hbase ▸ hspanned⟩

-- Reading a form leads to no other forms.
theorem mem_forms_of_mem_forms_ofString (hs : s.Nested) (htidy : s.Tidy) (hf : f ∈ s.forms)
    (hg : g ∈ (ofString f).forms) : g ∈ s.forms := by
  obtain ⟨t, rfl, hreduces, hforms⟩ := exists_canonicalForm_of_mem_forms hf
  rw [(hreduces.nested hs).ofString_canonicalForm (hreduces.tidy htidy)] at hg
  exact hforms g hg

theorem openAfter_collapseBlanks (opened : List Char) (last : Option Char) (pending : Bool)
    (cs : List Char) : openAfter opened (collapseBlanks last pending cs) = openAfter opened cs := by
  induction cs generalizing opened last pending with
  | nil => rfl
  | cons c cs ih =>
    rw [collapseBlanks]
    by_cases hc : isBlank c = true
    case pos =>
      have hne := ne_of_isBlank hc
      rw [if_pos hc, ih, openAfter, if_neg, if_neg]
      · simp [closes, hne '>' (by decide), hne ')' (by decide), hne ']' (by decide)]
      · simp [opens, hne '<' (by decide), hne '(' (by decide), hne '[' (by decide)]
    case neg =>
      have hcons : openAfter opened (c :: collapseBlanks (some c) false cs) =
          openAfter opened (c :: cs) := by
        rw [openAfter, openAfter]
        simp only [ih]
      rw [if_neg hc]
      dsimp only
      split_ifs
      · exact hcons
      · exact hcons

-- Type arguments end the last word in front of them.
theorem lexemes_append_of_isGeneric {s : Spelling .type} (h : s.isGeneric = true) (ys : List Char) :
    lexemes (s.text ++ ys) = lexemes s.text ++ lexemes ys := by
  have hangle : isBlank '>' = false ∧ isTypeWord '>' = false := by decide
  obtain ⟨front, htext⟩ := getLast_text_of_isGeneric h
  rw [htext, List.append_assoc, List.singleton_append, lexemes_mark hangle.left hangle.right,
    lexemes_mark hangle.left hangle.right]
  simp [lexemes]

namespace ParamText

variable (p : ParamText)

theorem lexemes_typeText : lexemes p.typeText = lexemes p.typeName.chars := by
  have hchars : p.typeName.chars = p.type.flatten.text ++ (p.glued.map Word.chars).getD [] := rfl
  rw [typeText, hchars]
  cases h : p.glued with
  | none =>
    rw [Option.map_none, Option.getD_none, List.append_nil, List.append_nil, lexemes_flatten]
  | some w =>
    have hgeneric := isGeneric_of_glued h
    rw [lexemes_append_of_isGeneric hgeneric,
      lexemes_append_of_isGeneric ((isGeneric_flatten p.type).trans hgeneric), lexemes_flatten]

-- The base of the type that is read is a name that closes its brackets in turn.
theorem nested_paramOfText (h : ∀ m ∈ p.modifiers, m.Plain) (hclose : p.type.Close) :
    (paramOfText p.text).Nested := by
  rw [paramOfText_text h hclose, (collapseBlanks_eq_iff _ _).mpr p.lexemes_typeText]
  refine ⟨?_, ?_⟩
  · rw [String.toList_ofList]
    exact isTypeName_collapseBlanks p.typeName.named fun _ => rfl
  · rw [String.toList_ofList, openAfter_collapseBlanks]
    exact p.typeName.closed

end ParamText

-- The canonical spelling of a text is one of its forms and its own canonical spelling, and reading
-- the forms again gives all forms and no others.
structure ClosedForms (text : String) : Prop where
  canonical : canonicalSignature text ∈ (ofString text).forms
  fixed : canonicalSignature (canonicalSignature text) = canonicalSignature text
  inside : ∀ f ∈ (ofString text).forms, ∀ g ∈ (ofString f).forms, g ∈ (ofString text).forms
  covered : ∀ g ∈ (ofString text).forms, ∃ f ∈ (ofString text).forms, g ∈ (ofString f).forms

namespace SignatureText

variable (s : SignatureText) (h : ∀ p ∈ s.params, (∀ m ∈ p.modifiers, m.Plain) ∧ p.type.Close)

include h

theorem wellNested_text : WellNested s.text := by
  have hnested : ∀ q ∈ (ofString s.text).params, q.Nested := by
    rw [s.ofString_text fun p hp => (h p hp).left]
    intro q hq
    obtain ⟨p, hp, rfl⟩ := List.mem_map.mp hq
    exact p.nested_paramOfText (h p hp).left (h p hp).right
  refine ⟨isProper_iff.mpr ⟨?_, fun q hq => (hnested q hq).isTypeName⟩, fun q hq => (hnested q hq).closed⟩
  rw [s.ofString_text fun p hp => (h p hp).left, String.toList_ofList]
  exact ⟨s.name.nonempty, s.name.word⟩

theorem not_variadic_of_mem_dropLast :
    ∀ q ∈ (ofString s.text).params.dropLast, q.variadic = false := by
  rw [s.ofString_text fun p hp => (h p hp).left, ← List.map_dropLast]
  intro q hq
  obtain ⟨p, hp, rfl⟩ := List.mem_map.mp hq
  obtain ⟨hplain, hclose⟩ := h p (List.dropLast_subset _ hp)
  rw [ParamText.paramOfText_text hplain hclose, s.last p hp]
  rfl

theorem closedForms_text : ClosedForms s.text := by
  have hwell := s.wellNested_text h
  have hread := hwell.ofString_canonicalSignature
  have hmem : canonicalSignature s.text ∈ (ofString s.text).forms :=
    canonicalForm_mem_forms (s.not_variadic_of_mem_dropLast h)
  refine ⟨hmem, ?_, ?_, ?_⟩
  · rw [canonicalSignature, hread]
    rfl
  · intro f hf g hg
    exact mem_forms_of_mem_forms_ofString hwell.nested hwell.tidy hf hg
  · intro g hg
    refine ⟨canonicalSignature s.text, hmem, ?_⟩
    rwa [hread]

omit h

-- More array parameters than are expanded.
theorem closedForms_text_manyArrays :
    ∃ s : SignatureText,
      s.text = "f(int[]x,int[]x,int[]x,int[]x,int[]x,int[]x,int[]x,int[]x,List<? > ...xs [])" ∧
        (∀ p ∈ s.params, (∀ m ∈ p.modifiers, m.Plain) ∧ p.type.Close) ∧ ClosedForms s.text := by
  let s : SignatureText := {
    lead := .none
    name := .of "f" (by decide +kernel)
    gap := .none
    params := List.replicate 8
        { lead := .none
          modifiers := []
          type := .word "int" (by decide +kernel) (by decide +kernel)
          pairs := [⟨.none, .none⟩]
          ellipsis := .none
          name := some (.none, .of "x" (by decide +kernel))
          namePairs := []
          trail := .none
          divided := trivial
          separated := by simp } ++
      [ { lead := .none
          modifiers := []
          type := .generic (.simple ⟨.of "List" (by decide +kernel), by decide +kernel⟩) .none
            (.single (.wildcard .none .space))
          pairs := []
          ellipsis := some .space
          name := some (.none, .of "xs" (by decide +kernel))
          namePairs := [⟨.space, .none⟩]
          trail := .none
          divided := trivial
          separated := by simp } ]
    empty := .none
    trail := .none
    last := by simp }
  have hclose : ∀ p ∈ s.params, (∀ m ∈ p.modifiers, m.Plain) ∧ p.type.Close := by
    intro p hp
    obtain hp | hp := List.mem_append.mp hp
    · rw [List.eq_of_mem_replicate hp]
      exact ⟨by simp, trivial⟩
    · rw [List.mem_singleton.mp hp]
      exact ⟨by simp, trivial⟩
  exact ⟨s, by decide +kernel, hclose, s.closedForms_text hclose⟩

-- Where a blank stands behind a dot, the type that is read ends with the dot, and dots behind that
-- are not read as they were written.
theorem not_forall_closedForms_text : ¬∀ s : SignatureText, ClosedForms s.text := by
  intro h
  have hclosed := h
    { lead := .none
      name := .of "m" (by decide +kernel)
      gap := .none
      params := [
        { lead := .none
          modifiers := []
          type := .raw (.member (.word "Outer" (by decide +kernel) (by decide +kernel)) .none .space
            (.of "Inner" (by decide +kernel)))
          pairs := [⟨.none, .none⟩]
          ellipsis := .none
          name := some (.space, .of "x" (by decide +kernel))
          namePairs := []
          trail := .none
          divided := trivial
          separated := by simp }]
      empty := .none
      trail := .none
      last := by simp }
  have hforms : ClosedForms "m(Outer. Inner[] x)" := hclosed
  have hinside := hforms.inside "m(Outer....)" (by decide +kernel) "m(Outer)" (by decide +kernel)
  revert hinside
  decide +kernel

end SignatureText

end Signature

end ClassSplit
