import ClassSplit.Proofs.Signature.Erasure
import ClassSplit.Signature.Collection
import Mathlib.Data.List.Induction

/-!
Membership in a collection of signatures. A text counts as a member when it has a spelling in common
with a text that was inserted, and for well-formed texts this is so when the two are equal up to
brackets and `...`, whether the insertion was refused or not. Where texts fall into groups without
common spellings, the order of insertion matters inside of a group only. Main statements:
`contains_ofList` and `agreeOn_foldl_insert`.
-/

namespace ClassSplit

open Signature

namespace SignatureSet

variable {s : SignatureSet} {texts : List String} {text f : String}

theorem contains_iff :
    s.contains text = true ↔ ∃ f, f ∈ (ofString text).forms ∧ f ∈ s.forms := by
  simp [contains, NameSet.contains, Membership.mem]

theorem mem_forms_insert (h : f ∈ (s.insert text).forms) :
    f ∈ s.forms ∨ f ∈ (ofString text).forms := by
  rw [insert] at h
  split_ifs at h
  · exact .inl h
  · exact (NameSet.mem_union.mp h).symm

theorem mem_forms_insert_of_mem (h : f ∈ s.forms) : f ∈ (s.insert text).forms := by
  rw [insert]
  split_ifs
  · exact h
  · exact NameSet.mem_union.mpr (.inr h)

theorem ofList_concat (texts : List String) (text : String) :
    ofList (texts ++ [text]) = (ofList texts).insert text := by
  simp [ofList]

-- Every spelling comes from a text that was inserted.
theorem exists_mem_of_mem_forms (h : f ∈ (ofList texts).forms) :
    ∃ text ∈ texts, f ∈ (ofString text).forms := by
  induction texts using List.reverseRecOn with
  | nil => exact absurd h NameSet.not_mem_empty
  | append_singleton texts text ih =>
    rw [ofList_concat] at h
    cases mem_forms_insert h with
    | inl h =>
      obtain ⟨u, hu, hf⟩ := ih h
      exact ⟨u, List.mem_append_left _ hu, hf⟩
    | inr h => exact ⟨text, by simp, h⟩

theorem exists_erasure_eq_of_contains (hw : ∀ u ∈ texts, WellFormed u) (ht : WellFormed text)
    (h : (ofList texts).contains text = true) :
    ∃ u ∈ texts, (ofString u).erasure = (ofString text).erasure := by
  obtain ⟨f, hf, hforms⟩ := contains_iff.mp h
  obtain ⟨u, hu, hfu⟩ := exists_mem_of_mem_forms hforms
  exact ⟨u, hu, (exists_common_form_iff (hw u hu) ht).mp ⟨f, hfu, hf⟩⟩

-- The bare spelling of a text is present even if the text was refused.
theorem bareForm_mem_forms_ofList (hw : ∀ u ∈ texts, WellFormed u) :
    ∀ u ∈ texts, (ofString u).bareForm ∈ (ofList texts).forms := by
  induction texts using List.reverseRecOn with
  | nil => simp
  | append_singleton texts text ih =>
    have hwTexts : ∀ u ∈ texts, WellFormed u := fun u hu => hw u (List.mem_append_left _ hu)
    have hwText : WellFormed text := hw text (by simp)
    intro u hu
    rw [ofList_concat]
    cases List.mem_append.mp hu with
    | inl hu => exact mem_forms_insert_of_mem (ih hwTexts u hu)
    | inr hu =>
      obtain rfl := List.mem_singleton.mp hu
      by_cases hcontains : (ofList texts).contains u = true
      case pos =>
        obtain ⟨v, hv, herasure⟩ := exists_erasure_eq_of_contains hwTexts hwText hcontains
        rw [← bareForm_congr herasure]
        exact mem_forms_insert_of_mem (ih hwTexts v hv)
      case neg =>
        rw [insert, if_neg hcontains]
        exact NameSet.mem_union.mpr (.inl (bareForm_mem_forms _))

theorem contains_ofList (hw : ∀ u ∈ texts, WellFormed u) (ht : WellFormed text) :
    (ofList texts).contains text = true ↔
      ∃ u ∈ texts, (ofString u).erasure = (ofString text).erasure := by
  constructor
  case mp => exact exists_erasure_eq_of_contains hw ht
  case mpr =>
    rintro ⟨u, hu, herasure⟩
    have hbare := bareForm_mem_forms_ofList hw u hu
    rw [bareForm_congr herasure] at hbare
    exact contains_iff.mpr ⟨_, bareForm_mem_forms _, hbare⟩

section Order

variable {T : String → Prop} {s' : SignatureSet} {κ : Type} [DecidableEq κ] {key : String → κ}
  {k : κ} {texts' : List String}

-- Two texts that have a spelling in common.
def Common (a b : String) : Prop := ∃ f, f ∈ (ofString a).forms ∧ f ∈ (ofString b).forms

theorem contains_insert {a b : String} :
    (s.insert a).contains b = true ↔
      s.contains b = true ∨ s.contains a = false ∧ Common a b := by
  by_cases ha : s.contains a = true
  case pos => simp [insert_of_contains ha, ha]
  case neg =>
    rw [insert, if_neg ha, contains_iff, contains_iff]
    rw [Bool.not_eq_true] at ha
    simp only [NameSet.mem_union, ha, true_and, Common]
    constructor
    · rintro ⟨f, hb, hfa | hfs⟩
      · exact .inr ⟨f, hfa, hb⟩
      · exact .inl ⟨f, hb, hfs⟩
    · rintro (⟨f, hb, hfs⟩ | ⟨f, hfa, hb⟩)
      · exact ⟨f, hb, .inr hfs⟩
      · exact ⟨f, hb, .inl hfa⟩

-- Two collections that have the same of some texts.
def AgreeOn (T : String → Prop) (s s' : SignatureSet) : Prop :=
  ∀ text, T text → s.contains text = s'.contains text

theorem AgreeOn.insert (h : AgreeOn T s s') (htext : T text) :
    AgreeOn T (s.insert text) (s'.insert text) := by
  intro other hother
  rw [Bool.eq_iff_iff, contains_insert, contains_insert, h text htext, h other hother]

theorem AgreeOn.insert_left (h : AgreeOn T s s') (hapart : ∀ other, T other → ¬Common text other) :
    AgreeOn T (s.insert text) s' := by
  intro other hother
  rw [Bool.eq_iff_iff, contains_insert, h other hother]
  exact or_iff_left fun hcommon => hapart other hother hcommon.right

variable (hkey : ∀ a b, T a → T b → Common a b → key a = key b)

include hkey

-- What is inserted of other groups does not matter for a group.
theorem AgreeOn.foldl_insert_filter (h : AgreeOn (fun a => T a ∧ key a = k) s s')
    (htexts : ∀ text ∈ texts, T text) :
    AgreeOn (fun a => T a ∧ key a = k) (texts.foldl SignatureSet.insert s)
      ((texts.filter (key · = k)).foldl SignatureSet.insert s') := by
  induction texts generalizing s s' with
  | nil => exact h
  | cons text texts ih =>
    have htext := htexts text List.mem_cons_self
    have hrest : ∀ text ∈ texts, T text := fun t ht => htexts t (List.mem_cons_of_mem _ ht)
    by_cases hk : key text = k
    case pos =>
      rw [List.filter_cons_of_pos (by simpa using hk), List.foldl_cons, List.foldl_cons]
      exact ih (h.insert ⟨htext, hk⟩) hrest
    case neg =>
      rw [List.filter_cons_of_neg (by simpa using hk), List.foldl_cons]
      refine ih (h.insert_left ?_) hrest
      rintro other ⟨hother, rfl⟩ hcommon
      exact hk (hkey _ _ htext hother hcommon)

theorem agreeOn_foldl_insert (h : AgreeOn T s s') (htexts : ∀ text ∈ texts, T text)
    (htexts' : ∀ text ∈ texts', T text)
    (hfilter : ∀ k, texts.filter (key · = k) = texts'.filter (key · = k)) :
    AgreeOn T (texts.foldl insert s) (texts'.foldl insert s') := by
  intro text htext
  have hgroup : AgreeOn (fun a => T a ∧ key a = key text) s s' := fun a ha => h a ha.left
  have hself : AgreeOn (fun a => T a ∧ key a = key text) s' s' := fun a _ => rfl
  have hleft := AgreeOn.foldl_insert_filter hkey hgroup htexts text ⟨htext, rfl⟩
  have hright := AgreeOn.foldl_insert_filter hkey hself htexts' text ⟨htext, rfl⟩
  rw [hleft, hright, hfilter]

end Order

end SignatureSet

end ClassSplit
