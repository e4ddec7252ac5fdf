/-!
Names that are not in use. Candidates are tried in order, and so many of them that one is free.
Main statement: `not_taken_firstFree` says that the name which is found is free if one of the tried
ones is.
-/

namespace ClassSplit

/-- The first free name from an index on; the last one that is tried needs not be free. -/
def firstFree (isTaken : String → Bool) (name : Nat → String) : Nat → Nat → String
  | 0, i => name i
  | tries + 1, i => if isTaken (name i) then firstFree isTaken name tries (i + 1) else name i

theorem not_taken_firstFree {isTaken : String → Bool} {name : Nat → String} {tries i : Nat}
    (h : ∃ k, k ≤ tries ∧ isTaken (name (i + k)) = false) :
    isTaken (firstFree isTaken name tries i) = false := by
  induction tries generalizing i with
  | zero =>
    have ⟨k, hk, hf⟩ := h
    simp only [Nat.le_zero.1 hk, Nat.add_zero] at hf
    simpa [firstFree] using hf
  | succ tries ih =>
    simp only [firstFree]
    split
    case isTrue ht =>
      have ⟨k, hk, hf⟩ := h
      cases k with
      | zero => simp [ht] at hf
      | succ k => exact ih ⟨k, by omega, by rw [← hf]; congr 2; omega⟩
    case isFalse hf => simpa using hf

-- The names in front of the one that is found are taken.
theorem exists_eq_firstFree (isTaken : String → Bool) (name : Nat → String) (tries i : Nat) :
    ∃ k, k ≤ tries ∧ firstFree isTaken name tries i = name (i + k) ∧
      ∀ j, j < k → isTaken (name (i + j)) = true := by
  induction tries generalizing i with
  | zero => exact ⟨0, Nat.le_refl _, rfl, fun _ h => absurd h (Nat.not_lt_zero _)⟩
  | succ tries ih =>
    simp only [firstFree]
    split
    case isTrue ht =>
      have ⟨k, hk, he, hj⟩ := ih (i + 1)
      refine ⟨k + 1, by omega, by rw [he]; congr 1; omega, fun j hlt => ?_⟩
      cases j with
      | zero => exact ht
      | succ j =>
        have := hj j (by omega)
        rw [← this]; congr 2; omega
    case isFalse => exact ⟨0, Nat.zero_le _, rfl, fun _ h => absurd h (Nat.not_lt_zero _)⟩

end ClassSplit
