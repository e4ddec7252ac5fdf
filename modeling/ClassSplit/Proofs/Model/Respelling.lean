import ClassSplit.Proofs.Model.Signature
import ClassSplit.Scope.Facts

/-!
Facts whose keys are spelled in another way. The facts about a method stand under the one key that
is the method's signature up to brackets and dots, and such a key keeps this property when it is
replaced with another one that has the same canonical form. Main statement: `namesOf_eq`.
-/

namespace ClassSplit

open Signature

-- Two signatures that close their brackets in turn are read in the same way if they have the same
-- canonical form.
theorem Signature.WellNested.ofString_eq {a b : String} (ha : WellNested a) (hb : WellNested b)
    (h : canonicalSignature a = canonicalSignature b) : ofString a = ofString b := by
  rw [← ha.ofString_canonicalSignature, h, hb.ofString_canonicalSignature]

-- What a text denotes depends on how it is read only.
theorem ClassModel.findMethod?_congr {c : ClassModel} {a b : String} (ha : WellNested a)
    (hb : WellNested b) (h : canonicalSignature a = canonicalSignature b) :
    c.findMethod? a = c.findMethod? b := by
  simp only [findMethod?, signaturesMatch, h, ha.ofString_eq hb h]

namespace Facts

variable {table table' : FactTable} {m : Method} {y : Signature} {entry : String × NameSet}

-- Keys that close their brackets in turn, no two of which match.
structure Keyed (table : FactTable) : Prop where
  wellNested : ∀ entry ∈ table.entries, WellNested entry.1
  eq_of_match : ∀ entry ∈ table.entries, ∀ other ∈ table.entries,
    signaturesMatch entry.1 other.1 = true → entry = other

-- The entries of one table stand in the other one, under keys of the same canonical forms.
def Within (table table' : FactTable) : Prop :=
  ∀ entry ∈ table.entries, ∃ entry' ∈ table'.entries,
    canonicalSignature entry'.1 = canonicalSignature entry.1 ∧ entry'.2 = entry.2

-- Two tables that differ in the spelling of their keys only.
structure Respelled (table table' : FactTable) : Prop where
  keyed : Keyed table
  keyed' : Keyed table'
  within : Within table table'
  within' : Within table' table

theorem Respelled.symm (h : Respelled table table') : Respelled table' table :=
  ⟨h.keyed', h.keyed, h.within', h.within⟩

-- A key that is the signature of a method without brackets and dots.
def Names (entry : String × NameSet) (m : Method) : Prop :=
  (ofString entry.1).bareForm = (ofString m.signature).bareForm

theorem Names.eq {other : String × NameSet} (hkeyed : Keyed table) (hentry : entry ∈ table.entries)
    (hother : other ∈ table.entries) (h : Names entry m) (h' : Names other m) : entry = other :=
  hkeyed.eq_of_match entry hentry other hother (signaturesMatch_of_bareForm_eq (h.trans h'.symm))

-- What stands for a method stands under a key that names it, and only then is nothing found where
-- no key does.
theorem namesOf_cases (hkeyed : Keyed table) (hy : y.Denotes m) :
    (∃ entry ∈ table.entries, Names entry m ∧ namesOf table m = entry.2) ∨
      (∀ entry ∈ table.entries, ¬Names entry m) ∧ namesOf table m = .empty := by
  rw [namesOf]
  generalize hfound : ((table.get? m.signature).or
    ((table.entries.find? (canonicalSignature ·.1 == m.signature)).map Prod.snd)).or
      ((table.entries.find? (signaturesMatch ·.1 m.signature)).map Prod.snd) = found
  have hmatch {entry : String × NameSet} (hentry : entry ∈ table.entries) :
      signaturesMatch entry.1 m.signature = true ↔ Names entry m := by
    rw [signaturesMatch_comm, hy.signaturesMatch_iff (hkeyed.wellNested entry hentry), Names]
    exact eq_comm
  cases found with
  | none =>
    refine .inr ⟨?_, rfl⟩
    intro entry hentry hnames
    have hnone := (Option.or_eq_none_iff.mp hfound).right
    rw [Option.map_eq_none_iff, List.find?_eq_none] at hnone
    exact hnone entry hentry ((hmatch hentry).mpr hnames)
  | some names =>
    refine .inl ?_
    simp only [Option.or_eq_some_iff, Option.map_eq_some_iff] at hfound
    obtain (hexact | ⟨-, entry, hentry, rfl⟩) | ⟨-, entry, hentry, rfl⟩ := hfound
    · obtain ⟨before, after, hsplit, -⟩ := List.lookup_eq_some_iff.mp hexact
      exact ⟨(m.signature, names), hsplit ▸ by simp, rfl, rfl⟩
    · have hmem := List.mem_of_find?_eq_some hentry
      have hcanonical : canonicalSignature entry.1 = m.signature := by
        simpa using List.find?_some hentry
      refine ⟨entry, hmem, ?_, rfl⟩
      rw [Names, ← hcanonical, (hkeyed.wellNested entry hmem).ofString_canonicalSignature]
    · have hmem := List.mem_of_find?_eq_some hentry
      exact ⟨entry, hmem, (hmatch hmem).mp (by simpa using List.find?_some hentry), rfl⟩

theorem Respelled.exists_names (h : Respelled table table') (hentry : entry ∈ table.entries)
    (hnames : Names entry m) : ∃ entry' ∈ table'.entries, Names entry' m ∧ entry'.2 = entry.2 := by
  obtain ⟨entry', hentry', hcanonical, hvalue⟩ := h.within entry hentry
  refine ⟨entry', hentry', ?_, hvalue⟩
  rw [Names, (h.keyed'.wellNested entry' hentry').ofString_eq (h.keyed.wellNested entry hentry)
    hcanonical]
  exact hnames

theorem namesOf_eq (h : Respelled table table') (hy : y.Denotes m) :
    namesOf table m = namesOf table' m := by
  obtain ⟨entry, hentry, hnames, heq⟩ | ⟨hnone, heq⟩ := namesOf_cases h.keyed hy
  · obtain ⟨other, hother, hothers, hvalue⟩ := h.exists_names hentry hnames
    obtain ⟨entry', hentry', hnames', heq'⟩ | ⟨hnone', -⟩ := namesOf_cases h.keyed' hy
    · rw [heq, heq', ← hvalue, hothers.eq h.keyed' hother hentry' hnames']
    · exact absurd hothers (hnone' other hother)
  · obtain ⟨entry', hentry', hnames', -⟩ | ⟨-, heq'⟩ := namesOf_cases h.keyed' hy
    · obtain ⟨entry, hentry, hnames, -⟩ := h.symm.exists_names hentry' hnames'
      exact absurd hnames (hnone entry hentry)
    · rw [heq, heq']

end Facts

end ClassSplit
