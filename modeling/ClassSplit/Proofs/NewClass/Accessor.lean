import ClassSplit.NewClass.Field
import ClassSplit.Proofs.Java.Name
import ClassSplit.Proofs.Signature.Spelling
import Mathlib

/-!
The names of accessors. An accessor gets the first of its candidates that no earlier accessor has
and that does not denote a moved method together with the parameters of the accessor. The candidates
are single words that denote different signatures, so that there is such a one. Main statements:
`nodup_name_synthesized` and `signature_ne_of_mem_synthesized`.
-/

namespace ClassSplit

open Signature

section Word

variable {c d : Char} {cs : List Char} {name : String}

-- A name that a signature is read back under.
def IsWord (name : String) : Prop := ∀ c ∈ name.toList, isPlain c = true

def isPlainCode (n : Nat) : Bool := !Text.blankCodes.contains n && n != 40 && n != 46

theorem isPlain_of_isPlainCode (h : isPlainCode c.toNat = true) : isPlain c = true := by
  simp only [isPlainCode, Bool.and_eq_true, Bool.not_eq_true', List.contains_eq_mem,
    decide_eq_false_iff_not, bne_iff_ne, ne_eq] at h
  refine isPlain_iff.mpr ⟨?_, ?_, ?_⟩
  · cases hblank : Text.isBlank c with
    | false => rfl
    | true => exact absurd (Text.mem_blankCodes hblank) h.left.left
  · rintro rfl
    exact h.left.right rfl
  · rintro rfl
    exact h.right rfl

theorem isPlain_ofNat {n : Nat} (h : isPlainCode n = true) : isPlain (Char.ofNat n) = true := by
  refine isPlain_of_isPlainCode ?_
  rw [Char.ofNat]
  split
  case isTrue => exact h
  case isFalse => decide

-- No letter has a blank, a dot or a parenthesis as its capital.
theorem isPlain_of_mem_upperCase (hc : isPlain c = true) (hd : d ∈ Text.upperCase c) :
    isPlain d = true := by
  have hexpansions : ∀ e ∈ Text.upperExpansions, ∀ n ∈ e.2, isPlainCode n = true := by
    decide +kernel
  have hruns : ∀ r ∈ Text.upperRuns, ∀ n ∈ 40 :: 46 :: Text.blankCodes,
      n < r.image ∨ r.image + (r.last - r.first) < n := by decide +kernel
  rw [Text.upperCase, Text.caseImage] at hd
  split at hd
  case h_1 image himage =>
    obtain ⟨n, hn, rfl⟩ := List.mem_map.mp hd
    obtain ⟨before, behind, htable, -⟩ := List.lookup_eq_some_iff.mp himage
    have hmem : (c.toNat, image) ∈ Text.upperExpansions := htable ▸ by simp
    exact isPlain_ofNat (hexpansions _ hmem n hn)
  case h_2 =>
    rw [List.mem_singleton] at hd
    subst hd
    cases hfound : Text.upperRuns.findSome? (·.map? c.toNat) with
    | none => exact hc
    | some n =>
      obtain ⟨r, hr, hmap⟩ := List.exists_of_findSome?_eq_some hfound
      rw [Text.CaseRun.map?] at hmap
      split at hmap
      case isFalse => cases hmap
      case isTrue hrange =>
        cases hmap
        refine isPlain_ofNat ?_
        have hapart (b : Nat) (hb : b ∈ 40 :: 46 :: Text.blankCodes) :
            r.image + (c.toNat - r.first) ≠ b := by
          have := hruns r hr b hb
          omega
        simp only [isPlainCode, Bool.and_eq_true, Bool.not_eq_true', List.contains_eq_mem,
          decide_eq_false_iff_not, bne_iff_ne, ne_eq]
        refine ⟨⟨fun hblank => ?_, hapart 40 (by simp)⟩, hapart 46 (by simp)⟩
        exact hapart _ (List.mem_cons_of_mem _ (List.mem_cons_of_mem _ hblank)) rfl

theorem isWord_append {a b : String} (ha : IsWord a) (hb : IsWord b) : IsWord (a ++ b) := by
  intro c hc
  rw [String.toList_append] at hc
  exact (List.mem_append.mp hc).elim (ha c) (hb c)

theorem isWord_toString (n : Nat) : IsWord (toString n) := fun _ hc =>
  isPlain_of_isWordChar (Java.isWordChar_of_isDigit (Java.isDigit_of_mem_toString hc))

theorem isWord_capitalize (h : IsWord name) :
    IsWord (String.ofList (Text.capitalize name.toList)) := by
  intro d hd
  rw [String.toList_ofList] at hd
  unfold IsWord at h
  cases hname : name.toList with
  | nil =>
    rw [hname] at hd
    cases hd
  | cons c cs =>
    rw [hname] at hd h
    obtain hd | hd := List.mem_append.mp hd
    · exact isPlain_of_mem_upperCase (h c List.mem_cons_self) hd
    · exact h d (List.mem_cons_of_mem c hd)

end Word

-- A method as its class declares it. Which of the parameters take a variable number of arguments is
-- kept apart from their types.
structure Heading where
  name : String
  params : List (String × Bool)
  deriving DecidableEq

namespace Heading

variable {g h : Heading}

def writtenType (type : String) (variadic : Bool) : String := type ++ if variadic then "..." else ""

def signature (h : Heading) : String :=
  canonicalSignature
    (h.name ++ "(" ++ ",".intercalate (h.params.map fun p => writtenType p.1 p.2) ++ ")")

-- The types of the parameters; a variable number of arguments is an array of them.
def types (h : Heading) : List String := h.params.map fun p => p.1 ++ if p.2 then "[]" else ""

-- A class cannot have two methods with such headings.
def Same (g h : Heading) : Prop := g.name = h.name ∧ g.types = h.types

instance : DecidableRel Same := fun g h =>
  inferInstanceAs (Decidable (g.name = h.name ∧ g.types = h.types))

-- Which of the parameters are written with dots.
def dotted (h : Heading) : List Bool := h.params.map (·.2)

-- Two headings are not the same, unless one has dots where the other has brackets.
def Apart (g h : Heading) : Prop := g.Same h → g.dotted ≠ h.dotted

theorem eq_of_same (h₁ : g.Same h) (h₂ : g.dotted = h.dotted) : g = h := by
  obtain ⟨name, ps⟩ := g
  obtain ⟨name', qs⟩ := h
  obtain ⟨rfl, htypes⟩ := h₁
  refine congrArg (mk name) ?_
  simp only [types, dotted] at htypes h₂
  induction ps generalizing qs with
  | nil => simpa using htypes
  | cons p ps ih =>
    cases qs with
    | nil => simp at htypes
    | cons q qs =>
      simp only [List.map_cons, List.cons.injEq] at htypes h₂
      obtain ⟨type, variadic⟩ := p
      obtain ⟨type', variadic'⟩ := q
      obtain rfl : variadic = variadic' := h₂.left
      obtain rfl : type = type' := by simpa [String.append_left_inj] using htypes.left
      rw [ih qs h₂.right htypes.right]

theorem exists_signature_eq (hname : IsWord h.name) :
    ∃ params, h.signature = (Signature.mk h.name params).canonicalForm := by
  let types := ",".intercalate (h.params.map fun p => writtenType p.1 p.2)
  refine ⟨readParams types.toList, ?_⟩
  have hread := ofText_call hname types.toList
  rw [String.ofList_toList] at hread
  rw [← hread, signature, canonicalSignature, ofString]
  simp [types]

-- Headings with different names have different signatures.
theorem name_eq_of_signature_eq (hg : IsWord g.name) (hh : IsWord h.name)
    (heq : g.signature = h.signature) : g.name = h.name := by
  obtain ⟨ps, hps⟩ := exists_signature_eq hg
  obtain ⟨qs, hqs⟩ := exists_signature_eq hh
  rw [hps, hqs] at heq
  exact (render_inj (s := ⟨g.name, ps⟩) (t := ⟨h.name, qs⟩) hg hh heq).left

end Heading

def Method.heading (m : Method) : Heading := ⟨m.name, m.params.map fun p => (p.type, p.variadic)⟩

namespace AccessorForm

variable {form : AccessorForm} {f : Field} {base name : String}

def heading (form : AccessorForm) (f : Field) (name : String) : Heading :=
  ⟨name, (form.paramTypes f).map (·, false)⟩

theorem signature_heading (form : AccessorForm) (f : Field) (name : String) :
    (form.heading f name).signature = form.signatureOf f name := by
  simp [heading, Heading.signature, Heading.writtenType, signatureOf, Function.comp_def]

theorem isWord_verb (form : AccessorForm) : IsWord form.verb := by
  refine List.all_eq_true.mp ?_
  cases form
  all_goals decide

theorem isWord_baseName (form : AccessorForm) (hf : IsWord f.name) : IsWord (form.baseName f) :=
  isWord_append form.isWord_verb (isWord_capitalize hf)

theorem isWord_candidateName (hbase : IsWord base) (k : Nat) : IsWord (candidateName base k) := by
  have hfield : IsWord "Field" := List.all_eq_true.mp (by decide)
  match k with
  | 0 => exact hbase
  | 1 => exact isWord_append hbase hfield
  | k + 2 => exact isWord_append (isWord_append hbase hfield) (isWord_toString _)

theorem candidateName_injective (base : String) : (candidateName base).Injective := by
  have hlength (k : Nat) : base.length < (candidateName base (k + 1)).length := by
    have hfield : "Field".length = 5 := by decide
    match k with
    | 0 =>
      rw [candidateName, String.length_append]
      omega
    | k + 1 =>
      rw [candidateName, String.length_append, String.length_append]
      omega
  intro j k h
  match j, k with
  | 0, 0 => rfl
  | 0, k + 1 => exact absurd (congrArg String.length h) (Nat.ne_of_lt (hlength k))
  | j + 1, 0 => exact absurd (congrArg String.length h) (Nat.ne_of_gt (hlength j))
  | 1, 1 => rfl
  | 1, k + 2 => exact absurd h (Java.ne_append_toString (base ++ "Field") (k + 2))
  | j + 2, 1 => exact absurd h.symm (Java.ne_append_toString (base ++ "Field") (j + 2))
  | j + 2, k + 2 => exact Java.append_toString_injective (base ++ "Field") h

-- Among the candidates one is in none of two ways in use.
theorem exists_unclashing (form : AccessorForm) (f : Field) (hbase : IsWord base)
    (taken : List String) (moved : List Method) :
    ∃ k, k ≤ taken.length + moved.length ∧ candidateName base k ∉ taken ∧
      ∀ m ∈ moved, m.signature ≠ form.signatureOf f (candidateName base k) := by
  let mark (k : Nat) : String ⊕ String :=
    if candidateName base k ∈ taken then .inl (candidateName base k)
    else .inr (form.signatureOf f (candidateName base k))
  have hinjective : mark.Injective := by
    intro j k h
    refine candidateName_injective base ?_
    have hword (k : Nat) : IsWord (form.heading f (candidateName base k)).name :=
      isWord_candidateName hbase k
    simp only [mark] at h
    split at h
    all_goals split at h
    case isTrue.isTrue => exact Sum.inl.inj h
    case isTrue.isFalse => cases h
    case isFalse.isTrue => cases h
    case isFalse.isFalse =>
      have hsignature := Sum.inr.inj h
      rw [← signature_heading, ← signature_heading] at hsignature
      exact Heading.name_eq_of_signature_eq (hword j) (hword k) hsignature
  obtain ⟨k, hk, hfree⟩ := Java.exists_not_mem_of_injective hinjective
    (taken.map Sum.inl ++ moved.map fun m => Sum.inr m.signature)
  simp only [List.length_append, List.length_map] at hk
  simp only [mark, List.mem_append, List.mem_map, not_or, not_exists, not_and] at hfree
  have huntaken : candidateName base k ∉ taken := by
    intro hmem
    exact hfree.left _ hmem (if_pos hmem).symm
  refine ⟨k, hk, huntaken, ?_⟩
  intro m hm heq
  exact hfree.right m hm (by rw [if_neg huntaken, heq])

end AccessorForm

namespace NamedAccessor

variable {text : List Char} {moved : List Method} {taken : List String} {f : Field}
  {form : AccessorForm} {forms : List AccessorForm} {a : NamedAccessor}

def heading (a : NamedAccessor) (f : Field) : Heading := a.form.heading f a.name

-- An accessor that is declared does not have the signature of a moved method.
def Unclashing (moved : List Method) (f : Field) (a : NamedAccessor) : Prop :=
  a.reused = false → ∀ m ∈ moved, m.signature ≠ (a.heading f).signature

theorem choose_spec (hf : IsWord f.name) (text : List Char) (moved : List Method)
    (taken : List String) (form : AccessorForm) :
    (choose text moved taken f form).name ∉ taken ∧
      Unclashing moved f (choose text moved taken f form) := by
  rw [choose]
  split
  case isTrue hreused =>
    refine ⟨?_, fun h => Bool.noConfusion h⟩
    simpa using (Bool.and_eq_true_iff.mp hreused).right
  case isFalse =>
    let clashes (name : String) : Bool :=
      taken.contains name || moved.any (·.signature == form.signatureOf f name)
    obtain ⟨k, hk, huntaken, hunclashing⟩ :=
      form.exists_unclashing f (form.isWord_baseName hf) taken moved
    have hcandidate : clashes (AccessorForm.candidateName (form.baseName f) (0 + k)) = false := by
      simpa [clashes] using ⟨huntaken, hunclashing⟩
    have hfree := not_taken_firstFree ⟨k, hk, hcandidate⟩
    simp only [clashes, Bool.or_eq_false_iff, List.any_eq_false, beq_iff_eq] at hfree
    refine ⟨by simpa using hfree.left, fun _ m hm => ?_⟩
    rw [heading, AccessorForm.signature_heading]
    exact hfree.right m hm

theorem nodup_name_chooseAll (hf : IsWord f.name) (htaken : taken.Nodup) :
    (taken ++ (chooseAll text moved taken f forms).map (·.name)).Nodup := by
  induction forms generalizing taken with
  | nil => simpa [chooseAll] using htaken
  | cons form forms ih =>
    have hfirst := (choose_spec hf text moved taken form).left
    have hnodup : ([(choose text moved taken f form).name] ++ taken).Nodup :=
      List.nodup_cons.mpr ⟨hfirst, htaken⟩
    have hrest := ih (List.nodup_append_comm.mp hnodup)
    rwa [List.append_assoc] at hrest

theorem unclashing_chooseAll (hf : IsWord f.name)
    (ha : a ∈ chooseAll text moved taken f forms) : a.Unclashing moved f := by
  induction forms generalizing taken with
  | nil => cases ha
  | cons form forms ih =>
    rw [chooseAll] at ha
    obtain rfl | ha := List.mem_cons.mp ha
    · exact (choose_spec hf text moved taken form).right
    · exact ih ha

end NamedAccessor

-- An accessor together with the field that it is for.
structure FieldAccessor extends NamedAccessor where
  field : Field

namespace FieldAccessor

def heading (a : FieldAccessor) : Heading := a.toNamedAccessor.heading a.field

def declaration (a : FieldAccessor) (indent : String) : String :=
  a.form.declaration a.field a.name indent

end FieldAccessor

namespace MovedField

variable {text : List Char} {moved : List Method} {taken : List String} {indent : String}
  {fields : List Field} {a : FieldAccessor}

-- The accessors of several fields in turn, those included whose place a moved method takes.
def accessorsOf (text : List Char) (moved : List Method) (taken : List String) :
    List Field → List FieldAccessor
  | [] => []
  | f :: fs =>
    if f.isStatic then accessorsOf text moved taken fs
    else
      let named := NamedAccessor.chooseAll text moved taken f (AccessorForm.needed f)
      named.map (⟨·, f⟩) ++ accessorsOf text moved (taken ++ named.map (·.name)) fs

theorem flatMap_members_ofFields (text : List Char) (moved : List Method) (indent : String)
    (taken : List String) (fields : List Field) :
    (ofFields text moved indent taken fields).flatMap (·.members) =
      ((accessorsOf text moved taken fields).filter (!·.reused)).map (·.declaration indent) := by
  induction fields generalizing taken with
  | nil => rfl
  | cons f fields ih =>
    rw [ofFields, accessorsOf]
    split
    case isTrue => exact ih taken
    case isFalse =>
      rw [List.flatMap_cons, ih, List.filter_append, List.map_append, List.filter_map, List.map_map]
      rfl

-- The accessors that the new class declares: those that no moved method replaces.
def synthesized (text : List Char) (moved : List Method) (fields : List Field) :
    List FieldAccessor :=
  (accessorsOf text moved [] fields).filter (!·.reused)

-- No two accessors have the same name.
theorem nodup_name_accessorsOf (hfields : ∀ f ∈ fields, IsWord f.name) (htaken : taken.Nodup) :
    (taken ++ (accessorsOf text moved taken fields).map (·.name)).Nodup := by
  induction fields generalizing taken with
  | nil => simpa [accessorsOf] using htaken
  | cons f fields ih =>
    have hfs : ∀ g ∈ fields, IsWord g.name := fun g hg => hfields g (List.mem_cons_of_mem f hg)
    rw [accessorsOf]
    split
    case isTrue => exact ih hfs htaken
    case isFalse =>
      rw [List.map_append, List.map_map, ← List.append_assoc]
      exact ih hfs (NamedAccessor.nodup_name_chooseAll (hfields f List.mem_cons_self) htaken)

theorem nodup_name_synthesized (text : List Char) (moved : List Method)
    (hfields : ∀ f ∈ fields, IsWord f.name) :
    ((synthesized text moved fields).map (·.name)).Nodup :=
  (nodup_name_accessorsOf hfields List.nodup_nil).sublist (List.filter_sublist.map _)

theorem unclashing_of_mem_accessorsOf (hfields : ∀ f ∈ fields, IsWord f.name)
    (ha : a ∈ accessorsOf text moved taken fields) :
    a.toNamedAccessor.Unclashing moved a.field := by
  induction fields generalizing taken with
  | nil => cases ha
  | cons f fields ih =>
    have hfs : ∀ g ∈ fields, IsWord g.name := fun g hg => hfields g (List.mem_cons_of_mem f hg)
    rw [accessorsOf] at ha
    split at ha
    case isTrue => exact ih hfs ha
    case isFalse =>
      obtain ha | ha := List.mem_append.mp ha
      · obtain ⟨b, hb, rfl⟩ := List.mem_map.mp ha
        exact NamedAccessor.unclashing_chooseAll (hfields f List.mem_cons_self) hb
      · exact ih hfs ha

theorem signature_ne_of_mem_synthesized {m : Method} (hfields : ∀ f ∈ fields, IsWord f.name)
    (ha : a ∈ synthesized text moved fields) (hm : m ∈ moved) :
    m.signature ≠ a.heading.signature := by
  obtain ⟨ha, hdeclared⟩ := List.mem_filter.mp ha
  exact unclashing_of_mem_accessorsOf hfields ha (by simpa using hdeclared) m hm

end MovedField

end ClassSplit
