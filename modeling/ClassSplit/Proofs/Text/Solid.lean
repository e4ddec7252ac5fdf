import ClassSplit.Proofs.Text.Offset
import ClassSplit.Text.Blank
import ClassSplit.Text.Letter

/-!
Solid texts: they begin with a character that is not blank, and none of their newlines has only
blanks after it. A solid text in front of some place leaves no blank rest of a line to it.
-/

namespace ClassSplit.Text

theorem exists_of_inIntervals {n : Nat} {intervals : List (Nat × Nat)}
    (h : inIntervals n intervals = true) : ∃ i ∈ intervals, i.1 ≤ n ∧ n ≤ i.2 := by
  rw [inIntervals] at h
  cases hdrop : intervals.dropWhile (·.2 < n) with
  | nil => simp [hdrop] at h
  | cons i rest =>
    rw [hdrop] at h
    have hmem : i ∈ intervals := by
      have : i ∈ intervals.dropWhile (·.2 < n) := hdrop ▸ List.mem_cons_self
      exact (List.dropWhile_suffix _).subset this
    have hhead : ¬i.2 < n := by
      have := List.head?_dropWhile_not (fun i : Nat × Nat => decide (i.2 < n)) intervals
      simpa [hdrop] using this
    exact ⟨i, hmem, by simpa using h, by omega⟩

def blankCodes : List Nat := blankIntervals.flatMap fun i => List.range' i.1 (i.2 - i.1 + 1)

theorem mem_blankCodes {c : Char} (h : isBlank c = true) : c.toNat ∈ blankCodes := by
  obtain ⟨i, hi, hlo, hhi⟩ := exists_of_inIntervals h
  exact List.mem_flatMap.mpr ⟨i, hi, List.mem_range'_1.mpr (by omega)⟩

-- A class of characters by code points has no blank if none of the blank code points is in it.
theorem isBlank_eq_false_of {p : Nat → Bool} {c : Char} (hblank : blankCodes.all (!p ·) = true)
    (h : p c.toNat = true) : isBlank c = false := by
  cases hc : isBlank c with
  | false => rfl
  | true =>
    have := List.all_eq_true.mp hblank _ (mem_blankCodes hc)
    simp [h] at this

theorem isBlank_eq_false_of_isLetter {c : Char} (h : isLetter c = true) : isBlank c = false := by
  have hblank : blankCodes.all (!inIntervals · letterIntervals) = true := by decide +kernel
  exact isBlank_eq_false_of hblank h

theorem isBlank_eq_false_of_isWordChar {c : Char} (h : isWordChar c = true) : isBlank c = false := by
  have hmarks : blankCodes.all (!inIntervals · alphabeticMarkIntervals) = true := by decide +kernel
  have hnumbers : blankCodes.all (!inIntervals · numericIntervals) = true := by decide +kernel
  simp only [isWordChar, isAlphabetic, Bool.or_eq_true, beq_iff_eq] at h
  obtain (((hletter | hmark) | hnumber) | rfl) | rfl := h
  · exact isBlank_eq_false_of_isLetter hletter
  · exact isBlank_eq_false_of hmarks hmark
  · exact isBlank_eq_false_of hnumbers hnumber
  · decide
  · decide

structure Solid (cs : List Char) : Prop where
  first : ∃ c rest, cs = c :: rest ∧ isBlank c = false
  lines : ∀ before after, cs = before ++ '\n' :: after → ∃ c ∈ after, isBlank c = false

namespace Solid

variable {c : Char} {xs gap ys : List Char}

theorem ne_nil (h : Solid xs) : xs ≠ [] := by
  obtain ⟨c, rest, heq, _⟩ := h.first
  simp [heq]

theorem of_no_newline (hc : isBlank c = false) (h : '\n' ∉ c :: xs) : Solid (c :: xs) where
  first := ⟨c, xs, rfl, hc⟩
  lines := by
    intro before after heq
    exact absurd (heq ▸ by simp) h

theorem of_last {last : Char} (hc : isBlank c = false) (hlast : isBlank last = false) :
    Solid (c :: xs ++ [last]) where
  first := ⟨c, xs ++ [last], rfl, hc⟩
  lines := by
    intro before after heq
    have hne : last ≠ '\n' := by
      intro h
      subst h
      exact absurd hlast (by decide)
    cases List.eq_nil_or_concat after with
    | inl hnil =>
      subst hnil
      have := (List.append_inj' heq rfl).right
      simp at this
      exact absurd this hne
    | inr hconcat =>
      obtain ⟨front, d, hd⟩ := hconcat
      subst hd
      have hsame : c :: xs ++ [last] = (before ++ '\n' :: front) ++ [d] := by simp [heq]
      have hlastd := (List.append_inj' hsame rfl).right
      simp at hlastd
      exact ⟨d, by simp, hlastd ▸ hlast⟩

theorem singleton (hc : isBlank c = false) : Solid [c] := by
  refine of_no_newline hc ?_
  intro h
  have : '\n' = c := List.mem_singleton.mp h
  subst this
  exact absurd hc (by decide)

-- What stands between two solid texts does not matter.
theorem append (hxs : Solid xs) (hys : Solid ys) : Solid (xs ++ gap ++ ys) where
  first := by
    obtain ⟨c, rest, heq, hc⟩ := hxs.first
    exact ⟨c, rest ++ gap ++ ys, by simp [heq], hc⟩
  lines := by
    intro before after heq
    cases List.append_eq_append_iff.mp heq with
    | inl h =>
      obtain ⟨mid, -, hmid⟩ := h
      exact hys.lines mid after hmid
    | inr h =>
      -- The newline stands in front of the last part, whose first character is not blank.
      obtain ⟨mid, -, hmid⟩ := h
      obtain ⟨d, rest, hd, hblank⟩ := hys.first
      cases mid with
      | nil => exact hys.lines [] after (by simpa using hmid.symm)
      | cons e mid =>
        have hafter : after = mid ++ ys := (List.cons.inj hmid).right
        exact ⟨d, by simp [hafter, hd], hblank⟩

end Solid

end ClassSplit.Text
