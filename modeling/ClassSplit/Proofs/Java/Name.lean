import ClassSplit.Java.Name
import ClassSplit.Proofs.Text.Words
import Mathlib.Data.List.Nodup
import Mathlib.Data.List.Perm.Subperm

/-!
Names that can be declared. They are single words that do not begin with a digit, and a name with a
number behind it is never reserved. Of sufficiently many names one is not in use.
-/

namespace ClassSplit.Java

open Text

variable {name : String} {c : Char}

theorem isDigit_eq_false_of_isAlphabetic (h : isAlphabetic c = true) : c.isDigit = false := by
  have hdigits : ∀ n, n < 58 → 48 ≤ n → inIntervals n letterIntervals = false ∧
      inIntervals n alphabeticMarkIntervals = false := by decide +kernel
  cases hdigit : c.isDigit with
  | false => rfl
  | true =>
    simp only [Char.isDigit, Bool.and_eq_true, decide_eq_true_eq] at hdigit
    obtain ⟨hletter, hmark⟩ := hdigits c.toNat (Nat.lt_succ_of_le hdigit.right) hdigit.left
    rw [isAlphabetic, isLetter, hletter, hmark] at h
    cases h

theorem isWordChar_of_isDigit (h : c.isDigit = true) : isWordChar c = true := by
  have hdigits : ∀ n, n < 58 → 48 ≤ n → inIntervals n numericIntervals = true := by
    decide +kernel
  simp only [Char.isDigit, Bool.and_eq_true, decide_eq_true_eq] at h
  have hnumeric := hdigits c.toNat (Nat.lt_succ_of_le h.right) h.left
  simp [isWordChar, isNumeric, hnumeric]

def isNameStart (c : Char) : Bool := isAlphabetic c || c == '_' || c == '$'

theorem isDigit_eq_false_of_isNameStart (h : isNameStart c = true) : c.isDigit = false := by
  simp only [isNameStart, Bool.or_eq_true, beq_iff_eq] at h
  obtain (halphabetic | rfl) | rfl := h
  · exact isDigit_eq_false_of_isAlphabetic halphabetic
  · decide
  · decide

theorem isWordChar_of_isNameStart (h : isNameStart c = true) : isWordChar c = true := by
  simp only [isNameStart, Bool.or_eq_true, beq_iff_eq] at h
  obtain (halphabetic | rfl) | rfl := h
  · simp [isWordChar, halphabetic]
  · decide
  · decide

-- A word that begins as a name does.
structure IsIdentifier (name : String) : Prop where
  start : name.toList.head?.any isNameStart = true
  chars : ∀ c ∈ name.toList, isWordChar c = true

theorem isDeclarable_iff :
    isDeclarable name = true ↔ IsIdentifier name ∧ name ∉ reservedWords := by
  rw [isDeclarable]
  split
  case h_1 hname =>
    constructor
    · intro h
      cases h
    · rintro ⟨⟨hstart, -⟩, -⟩
      rw [hname] at hstart
      cases hstart
  case h_2 c cs hname =>
    simp only [Bool.and_eq_true, Bool.not_eq_true', List.contains_eq_mem, decide_eq_false_iff_not,
      List.all_eq_true]
    constructor
    · rintro ⟨⟨hstart, hchars⟩, hreserved⟩
      refine ⟨⟨?_, ?_⟩, hreserved⟩
      · rw [hname]
        exact hstart
      · intro d hd
        rw [hname] at hd
        obtain rfl | hd := List.mem_cons.mp hd
        · exact isWordChar_of_isNameStart hstart
        · exact hchars d hd
    · rintro ⟨⟨hstart, hchars⟩, hreserved⟩
      rw [hname] at hstart hchars
      exact ⟨⟨hstart, fun d hd => hchars d (List.mem_cons_of_mem c hd)⟩, hreserved⟩

theorem IsIdentifier.ne_nil (h : IsIdentifier name) : name.toList ≠ [] := by
  intro hname
  have hstart := h.start
  rw [hname] at hstart
  cases hstart

section Number

variable {base : String} {n : Nat}

theorem isDigit_of_mem_toString (h : c ∈ (toString n).toList) : c.isDigit = true := by
  rw [Nat.toString_eq_repr, Nat.toList_repr] at h
  exact Nat.isDigit_of_mem_toDigits (by decide) (by decide) h

theorem toString_ne_nil (n : Nat) : (toString n).toList ≠ [] := by
  rw [Nat.toString_eq_repr, Nat.toList_repr]
  exact Nat.toDigits_ne_nil

theorem toString_injective : (toString : Nat → String).Injective := by
  intro m n h
  have hdigits : Nat.toDigits 10 m = Nat.toDigits 10 n := by
    rw [← Nat.toList_repr, ← Nat.toList_repr]
    exact congrArg String.toList h
  have hvalue := congrArg (Nat.ofDigitChars 10 · 0) hdigits
  simpa using hvalue

theorem append_toString_injective (base : String) :
    Function.Injective fun n : Nat => base ++ toString n := by
  intro m n h
  have hlist := congrArg String.toList h
  rw [String.toList_append, String.toList_append, List.append_cancel_left_eq] at hlist
  exact toString_injective (String.toList_inj.mp hlist)

theorem ne_append_toString (base : String) (n : Nat) : base ≠ base ++ toString n := by
  intro h
  have hlist := congrArg String.toList h
  rw [String.toList_append, List.self_eq_append_right] at hlist
  exact toString_ne_nil n hlist

-- A number goes on with a name but does not begin one.
theorem isIdentifier_append_toString :
    IsIdentifier (base ++ toString n) ↔ IsIdentifier base := by
  constructor
  · rintro ⟨hstart, hchars⟩
    rw [String.toList_append] at hstart hchars
    refine ⟨?_, fun c hc => hchars c (List.mem_append_left _ hc)⟩
    cases hbase : base.toList with
    | nil =>
      rw [hbase, List.nil_append] at hstart
      obtain ⟨c, hc, hname⟩ := (Option.any_eq_true _ _).mp hstart
      have hdigit := isDigit_of_mem_toString (List.mem_of_mem_head? hc)
      rw [isDigit_eq_false_of_isNameStart hname] at hdigit
      cases hdigit
    | cons c cs => rwa [hbase] at hstart
  · rintro ⟨hstart, hchars⟩
    constructor
    · obtain ⟨c, hc, hname⟩ := (Option.any_eq_true _ _).mp hstart
      rw [String.toList_append, List.head?_append, hc]
      exact hname
    · intro c hc
      rw [String.toList_append] at hc
      obtain hc | hc := List.mem_append.mp hc
      · exact hchars c hc
      · exact isWordChar_of_isDigit (isDigit_of_mem_toString hc)

-- No reserved word has a digit.
theorem append_toString_not_mem_reservedWords (base : String) (n : Nat) :
    base ++ toString n ∉ reservedWords := by
  have hreserved : ∀ word ∈ reservedWords, word.toList.all (!·.isDigit) = true := by decide +kernel
  intro hmem
  obtain ⟨c, hc⟩ := List.exists_mem_of_ne_nil _ (toString_ne_nil n)
  have hdigit := List.all_eq_true.mp (hreserved _ hmem) c (by
    rw [String.toList_append]
    exact List.mem_append_right _ hc)
  rw [isDigit_of_mem_toString hc] at hdigit
  cases hdigit

end Number

-- Of more names than are in use one is free.
theorem exists_not_mem_of_injective {α : Type} {name : Nat → α} (h : name.Injective)
    (used : List α) : ∃ k, k ≤ used.length ∧ name k ∉ used := by
  by_contra hnone
  simp only [not_exists, not_and, Classical.not_not] at hnone
  have hnodup : ((List.range (used.length + 1)).map name).Nodup := List.nodup_range.map h
  have hsubset : (List.range (used.length + 1)).map name ⊆ used := by
    intro x hx
    obtain ⟨k, hk, rfl⟩ := List.mem_map.mp hx
    exact hnone k (Nat.lt_succ_iff.mp (List.mem_range.mp hk))
  have hlength := (hnodup.subperm hsubset).length_le
  rw [List.length_map, List.length_range] at hlength
  omega

end ClassSplit.Java
