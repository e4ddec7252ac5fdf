import ClassSplit.Proofs.Signature.Nesting

/-!
Texts inside of brackets. What closes its brackets in turn and stands inside of a pair of them is
passed over as a whole, whether commas, angle brackets or parentheses are looked for. Main
statements: `isWhole_inside`, `isTypeName_inside`, `spanType_inside` and `afterGroup_inside`.
-/

namespace ClassSplit.Signature

open Text

variable {c : Char} {xs opened left : List Char}

-- No comma divides it.
theorem isWhole_inside {k : Nat} (hk : 0 < k) (h : openAfter opened xs = some left)
    (ys : List Char) :
    isWhole (opened.length + k) (xs ++ ys) = isWhole (left.length + k) ys := by
  induction xs generalizing opened with
  | nil =>
    cases h
    rfl
  | cons c xs ih =>
    have hpos : 0 < opened.length + k := Nat.add_pos_right _ hk
    rw [List.cons_append, isWhole]
    obtain ⟨hopen, h⟩ | ⟨hopen, hclose, o, rest, rfl, -, h⟩ | ⟨hopen, hclose, h⟩ := openAfter_cons h
    · rw [if_pos hopen, ← ih h, List.length_cons, Nat.add_right_comm]
    · rw [if_neg (by simp [hopen]), if_pos hclose, ← ih h, List.length_cons]
      simp [Nat.add_right_comm]
    · rw [if_neg (by simp [hopen]), if_neg (by simp [hclose]), ih h]
      simp [hpos]

-- Inside of type arguments it is a part of the name of a type.
theorem isTypeName_inside (complete : Bool) (h : openAfter opened xs = some left)
    (ys : List Char) :
    ∃ complete', isTypeName (opened.length + 1) complete (xs ++ ys) =
      isTypeName (left.length + 1) complete' ys := by
  induction xs generalizing opened complete with
  | nil =>
    cases h
    exact ⟨complete, rfl⟩
  | cons c xs ih =>
    rw [List.cons_append, isTypeName, if_neg (Nat.succ_ne_zero _)]
    obtain ⟨hopen, h⟩ | ⟨hopen, hclose, o, rest, rfl, -, h⟩ | ⟨hopen, hclose, h⟩ := openAfter_cons h
    · rw [if_pos hopen]
      exact ih false h
    · rw [if_neg (by simp [hopen]), if_pos hclose]
      simpa using ih true h
    · rw [if_neg (by simp [hopen]), if_neg (by simp [hclose])]
      exact ih complete h

-- The reader of types takes it.
theorem spanType_inside {depth : Int} (hdepth : 0 < depth) (h : openAfter opened xs = some left)
    (ys : List Char) :
    spanType (depth + opened.count '<') (xs ++ ys) =
      (xs ++ (spanType (depth + left.count '<') ys).1, (spanType (depth + left.count '<') ys).2) := by
  induction xs generalizing opened with
  | nil =>
    cases h
    rfl
  | cons c xs ih =>
    obtain ⟨opened', hstep, h⟩ := exists_step_of_openAfter h
    have hcount : angleDepth (depth + opened.count '<') [c] = depth + opened'.count '<' := by
      rw [angleDepth_of_openAfter hstep]
      omega
    have hpos : 0 < depth + opened.count '<' := by omega
    rw [List.cons_append, spanType_cons, if_neg fun hle => Int.not_le.mpr hpos hle.left,
      if_pos (by simp [hpos]), hcount, ih h]
    rfl

-- So does the reader of annotations.
theorem afterGroup_inside {depth : Nat} (hdepth : 0 < depth) (h : openAfter opened xs = some left)
    (ys : List Char) :
    afterGroup (depth + opened.count '(') (xs ++ ys) = afterGroup (depth + left.count '(') ys := by
  induction xs generalizing opened with
  | nil =>
    cases h
    rfl
  | cons c xs ih =>
    rw [List.cons_append, afterGroup]
    obtain ⟨hopen, h⟩ | ⟨hopen, hclose, o, rest, rfl, hpairs, h⟩ | ⟨hopen, hclose, h⟩ :=
      openAfter_cons h
    · rw [← ih h]
      obtain rfl | rfl | rfl := opens_iff.mp hopen
      all_goals simp [Nat.add_assoc]
    · rw [← ih h]
      obtain rfl | rfl | rfl := closes_iff.mp hclose
      all_goals
        simp only [pairs, Bool.or_eq_true, Bool.and_eq_true, decide_eq_true_eq] at hpairs
        simp at hpairs
        subst hpairs
        simp
      omega
    · have hparen : c ≠ '(' := by rintro rfl; cases hopen
      have hparen' : c ≠ ')' := by rintro rfl; cases hclose
      rw [if_neg hparen, if_neg hparen', ih h]

end ClassSplit.Signature
