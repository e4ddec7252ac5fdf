import ClassSplit.Proofs.Model.OfTree
import ClassSplit.Proofs.Signature.Erasure

/-!
Finding methods by their signatures. In a class whose methods are told apart by their signatures, a
well-formed text denotes the one method that it matches.
-/

namespace ClassSplit

open Signature

namespace ClassModel

-- The constraints under which the signatures of a class tell its methods apart:
-- 1. each signature is well formed and written canonically
-- 2. a place in the source has one method
-- 3. no two methods match
structure Unambiguous (c : ClassModel) : Prop where
  wellFormed : ∀ m ∈ c.properMethods, WellFormed m.signature
  canonical : ∀ m ∈ c.properMethods, canonicalSignature m.signature = m.signature
  eq_of_span_eq : ∀ m ∈ c.properMethods, ∀ n ∈ c.properMethods, m.span = n.span → m = n
  eq_of_match : ∀ m ∈ c.properMethods, ∀ n ∈ c.properMethods,
    signaturesMatch m.signature n.signature = true → m = n

-- Whether the signatures of a class are as they are asked to be in `Unambiguous`.
def tellsApart (c : ClassModel) : Bool :=
  decide (∀ m ∈ c.properMethods, WellFormed m.signature ∧
    canonicalSignature m.signature = m.signature ∧
      ∀ n ∈ c.properMethods, signaturesMatch m.signature n.signature = true → m = n)

-- In a class that has been parsed every place has one method.
theorem unambiguous_of_parse {source : String} {wanted : Option String} {s : JavaSource}
    (h : JavaSource.parse source wanted = .ok s) (happart : s.model.tellsApart = true) :
    s.model.Unambiguous where
  wellFormed m hm := (of_decide_eq_true happart m hm).left
  canonical m hm := (of_decide_eq_true happart m hm).right.left
  eq_of_match m hm := (of_decide_eq_true happart m hm).right.right
  eq_of_span_eq _ hm _ hn :=
    JavaSource.eq_of_span_eq_of_parse h (List.mem_filter.mp hm).left (List.mem_filter.mp hn).left

variable {c : ClassModel} {m : Method} {text : String}

theorem mem_properMethods_of_findMethod? (h : c.findMethod? text = some m) :
    m ∈ c.properMethods := by
  obtain ⟨hm, hproper⟩ := not_isConstructor_of_findMethod? c h
  exact List.mem_filter.mpr ⟨hm, by simp [hproper]⟩

theorem mem_methodsNamed {name : String} :
    m ∈ c.methodsNamed name ↔ m ∈ c.properMethods ∧ m.name = name := by
  simp [methodsNamed]

-- What is found matches the text, whether by its canonical form or by another spelling.
theorem signaturesMatch_of_findMethod? (hcanonical : canonicalSignature m.signature = m.signature)
    (h : c.findMethod? text = some m) : signaturesMatch m.signature text = true := by
  simp only [findMethod?, Option.or_eq_some_iff] at h
  obtain hexact | ⟨-, hmatch⟩ := h
  · have heq : m.signature = canonicalSignature text := by simpa using List.find?_some hexact
    exact agrees_iff_exists.mpr (.inl (hcanonical.trans heq))
  · simpa using List.find?_some hmatch

theorem isSome_findMethod? (hm : m ∈ c.properMethods)
    (h : signaturesMatch m.signature text = true) : (c.findMethod? text).isSome = true := by
  rw [findMethod?, Option.isSome_or, Bool.or_eq_true, List.find?_isSome, List.find?_isSome]
  exact .inr ⟨m, hm, h⟩

-- Of the methods with a signature only the first one is found.
theorem find?_signature_of_findMethod? (h : c.findMethod? text = some m) :
    c.properMethods.find? (·.signature == m.signature) = some m := by
  simp only [findMethod?, Option.or_eq_some_iff] at h
  obtain hexact | ⟨-, hmatch⟩ := h
  · have heq : m.signature = canonicalSignature text := by simpa using List.find?_some hexact
    rwa [heq]
  · obtain ⟨htest, before, behind, hmethods, hbefore⟩ := List.find?_eq_some_iff_append.mp hmatch
    refine List.find?_eq_some_iff_append.mpr ⟨by simp, before, behind, hmethods, ?_⟩
    intro n hn
    have hother := hbefore n hn
    simp only [Bool.not_eq_true', beq_eq_false_iff_ne, ne_eq]
    intro heq
    rw [heq, htest] at hother
    cases hother

namespace Unambiguous

theorem eq_of_erasure_eq (hc : c.Unambiguous) {n : Method} (hm : m ∈ c.properMethods)
    (hn : n ∈ c.properMethods)
    (h : (ofString m.signature).erasure = (ofString n.signature).erasure) : m = n :=
  hc.eq_of_match m hm n hn ((agrees_iff (hc.wellFormed m hm) (hc.wellFormed n hn)).mpr h)

theorem findMethod?_eq_some_iff (hc : c.Unambiguous) (hw : WellFormed text) :
    c.findMethod? text = some m ↔
      m ∈ c.properMethods ∧ (ofString m.signature).erasure = (ofString text).erasure := by
  have hfound {n : Method} (hn : c.findMethod? text = some n) :
      n ∈ c.properMethods ∧ (ofString n.signature).erasure = (ofString text).erasure := by
    have hproper := mem_properMethods_of_findMethod? hn
    have hmatch := signaturesMatch_of_findMethod? (hc.canonical n hproper) hn
    exact ⟨hproper, (agrees_iff (hc.wellFormed n hproper) hw).mp hmatch⟩
  constructor
  case mp => exact hfound
  case mpr =>
    rintro ⟨hm, herasure⟩
    have hmatch := (agrees_iff (hc.wellFormed m hm) hw).mpr herasure
    obtain ⟨n, hn⟩ := Option.isSome_iff_exists.mp (isSome_findMethod? hm hmatch)
    obtain ⟨hproper, hnerasure⟩ := hfound hn
    rw [hn, hc.eq_of_erasure_eq hproper hm (hnerasure.trans herasure.symm)]

-- A method is found by its own signature.
theorem findMethod?_signature (hc : c.Unambiguous) (hm : m ∈ c.properMethods) :
    c.findMethod? m.signature = some m :=
  (hc.findMethod?_eq_some_iff (hc.wellFormed m hm)).mpr ⟨hm, rfl⟩

end Unambiguous

end ClassModel

end ClassSplit
