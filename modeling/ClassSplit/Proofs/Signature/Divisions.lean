import ClassSplit.Proofs.Signature.TypeText

/-!
What reading a type forgets. Of the blanks in a type only those matter that divide two words, and of
those only where they stand: two types are read alike exactly when they have the same other
characters and blanks divide words in the same places. Main statement: `collapseType_forgets`.
-/

namespace ClassSplit.Signature

open Text

variable {a b c : Char} {cs xs ys gap front back : List Char} {last : Option Char} {worded : Bool}
  {k : Nat}

def solids (cs : List Char) : List Char := cs.filter (!isBlank ·)

-- Blanks stand between two characters of words. The number says how many characters up to there are
-- not blank.
inductive DividedAt : List Char → Nat → Prop
  | between (front : List Char) {a b : Char} {gap : List Char} (back : List Char)
      (before : isTypeWord a = true) (behind : isTypeWord b = true) (nonempty : gap ≠ [])
      (blanks : allBlank gap = true) :
      DividedAt (front ++ a :: (gap ++ b :: back)) ((solids front).length + 1)

section Solids

@[simp] theorem solids_nil : solids [] = [] := rfl

theorem solids_cons_blank (h : isBlank c = true) (cs : List Char) :
    solids (c :: cs) = solids cs := by
  simp [solids, h]

theorem solids_cons (h : isBlank c = false) (cs : List Char) :
    solids (c :: cs) = c :: solids cs := by
  simp [solids, h]

theorem solids_append (xs ys : List Char) : solids (xs ++ ys) = solids xs ++ solids ys :=
  List.filter_append xs ys

theorem solids_of_allBlank (h : allBlank gap = true) : solids gap = [] := by
  rw [allBlank, List.all_eq_true] at h
  exact List.filter_eq_nil_iff.mpr fun c hc => by simp [h c hc]

theorem solids_collapseBlanks (last : Option Char) (pending : Bool) (cs : List Char) :
    solids (collapseBlanks last pending cs) = solids cs := by
  induction cs generalizing last pending with
  | nil => rfl
  | cons c cs ih =>
    rw [collapseBlanks]
    split
    case isTrue hc => rw [ih, solids_cons_blank hc]
    case isFalse hc =>
      have hspace : isBlank ' ' = true := by decide
      rw [Bool.not_eq_true] at hc
      simp only [solids_append, ih, solids_cons hc]
      split
      · rw [solids_cons_blank hspace, solids_cons hc, solids_nil, List.singleton_append]
      · rw [solids_cons hc, solids_nil, List.singleton_append]

end Solids

section DividedAt

-- A text that begins with blanks in front of a word.
def opensWord (cs : List Char) : Bool := cs.head?.any isBlank && (solids cs).head?.any isTypeWord

theorem exists_of_opensWord (h : opensWord cs = true) :
    ∃ gap b back, cs = gap ++ b :: back ∧ gap ≠ [] ∧ allBlank gap = true ∧ isTypeWord b = true := by
  induction cs with
  | nil => cases h
  | cons c cs ih =>
    obtain ⟨hc, hword⟩ := Bool.and_eq_true_iff.mp h
    have hc : isBlank c = true := by simpa using hc
    rw [solids_cons_blank hc] at hword
    cases hopens : opensWord cs with
    | true =>
      obtain ⟨gap, b, back, rfl, -, hblank, hb⟩ := ih hopens
      exact ⟨c :: gap, b, back, rfl, List.cons_ne_nil c gap,
        Bool.and_eq_true_iff.mpr ⟨hc, hblank⟩, hb⟩
    | false =>
      cases cs with
      | nil => cases hword
      | cons b back =>
        have hb : isBlank b = false := by simpa [opensWord, hword] using hopens
        rw [solids_cons hb] at hword
        exact ⟨[c], b, back, rfl, List.cons_ne_nil c [], by simpa [allBlank] using hc,
          by simpa using hword⟩

theorem opensWord_append (hne : gap ≠ []) (hblank : allBlank gap = true) (hb : isTypeWord b = true)
    (back : List Char) : opensWord (gap ++ b :: back) = true := by
  obtain ⟨c, gap, rfl⟩ := List.exists_cons_of_ne_nil hne
  obtain ⟨hc, -⟩ := Bool.and_eq_true_iff.mp hblank
  have hsolid := isBlank_eq_false_of_isTypeWord hb
  rw [opensWord, solids_append, solids_of_allBlank hblank, List.nil_append, solids_cons hsolid]
  simp [hc, hb]

theorem DividedAt.cons (h : DividedAt cs k) (c : Char) :
    DividedAt (c :: cs) (k + (solids [c]).length) := by
  obtain ⟨front, back, before, behind, nonempty, blanks⟩ := h
  have hcons := DividedAt.between (c :: front) back before behind nonempty blanks
  rw [← List.singleton_append, solids_append, List.length_append] at hcons
  rwa [Nat.add_right_comm, Nat.add_comm _ (solids [c]).length]

-- What is divided in a text is divided behind its first character, or right there.
theorem dividedAt_cons_iff : DividedAt (c :: cs) k ↔
    k = 1 ∧ isTypeWord c = true ∧ opensWord cs = true ∨
      ∃ j, k = j + (solids [c]).length ∧ DividedAt cs j := by
  constructor
  case mp =>
    intro h
    generalize heq : c :: cs = text at h
    obtain ⟨front, back, before, behind, nonempty, blanks⟩ := h
    cases front with
    | nil =>
      cases heq
      exact .inl ⟨rfl, before, opensWord_append nonempty blanks behind back⟩
    | cons d front =>
      cases heq
      refine .inr ⟨_, ?_, .between front back before behind nonempty blanks⟩
      rw [← List.singleton_append, solids_append, List.length_append]
      omega
  case mpr =>
    rintro (⟨rfl, hc, hopens⟩ | ⟨j, rfl, h⟩)
    · obtain ⟨gap, b, back, rfl, hne, hblank, hb⟩ := exists_of_opensWord hopens
      exact .between [] back hc hb hne hblank
    · exact h.cons c

theorem isTypeWord_eq_false_of_isBlank (h : isBlank c = true) : isTypeWord c = false := by
  cases hword : isTypeWord c with
  | false => rfl
  | true => rw [isBlank_eq_false_of_isTypeWord hword] at h; cases h

theorem dividedAt_cons_blank (h : isBlank c = true) : DividedAt (c :: cs) k ↔ DividedAt cs k := by
  simp [dividedAt_cons_iff, solids_cons_blank h, isTypeWord_eq_false_of_isBlank h]

theorem dividedAt_cons_solid (h : isBlank c = false) : DividedAt (c :: cs) (k + 1) ↔
    k = 0 ∧ isTypeWord c = true ∧ opensWord cs = true ∨ DividedAt cs k := by
  simp [dividedAt_cons_iff, solids_cons h]

theorem not_dividedAt_zero (cs : List Char) : ¬DividedAt cs 0 := by
  intro h
  generalize heq : 0 = k at h
  cases h
  cases heq

-- Texts in which the same follows a character are divided in the same places, together with it.
theorem dividedAt_cons_congr (hopens : isTypeWord c = true → opensWord xs = opensWord ys)
    (h : ∀ k, DividedAt xs k ↔ DividedAt ys k) : DividedAt (c :: xs) k ↔ DividedAt (c :: ys) k := by
  rw [dividedAt_cons_iff, dividedAt_cons_iff]
  simp only [h]
  cases hc : isTypeWord c with
  | false => simp
  | true => rw [hopens hc]

end DividedAt

section Trimmed

-- Blanks at the ends of a text divide nothing.
theorem dividedAt_trimStart (cs : List Char) : DividedAt (trimStart cs) k ↔ DividedAt cs k := by
  induction cs with
  | nil => rfl
  | cons c cs ih =>
    cases hc : isBlank c with
    | false => rw [trimStart_of_head hc]
    | true =>
      rw [dividedAt_cons_blank hc, ← ih, trimStart, List.dropWhile_cons_of_pos hc, trimStart]

theorem opensWord_append_blanks (hblank : allBlank gap = true) (cs : List Char) :
    opensWord (cs ++ gap) = opensWord cs := by
  rw [opensWord, solids_append, solids_of_allBlank hblank, List.append_nil]
  cases cs with
  | nil => simp [opensWord]
  | cons c cs => rfl

theorem dividedAt_append_blanks (hblank : allBlank gap = true) (cs : List Char) :
    DividedAt (cs ++ gap) k ↔ DividedAt cs k := by
  induction cs generalizing k with
  | nil =>
    have hnone := opensWord_append_blanks hblank []
    induction gap with
    | nil => rfl
    | cons c gap ih =>
      obtain ⟨hc, hgap⟩ := Bool.and_eq_true_iff.mp hblank
      rw [List.nil_append, dividedAt_cons_blank hc]
      exact ih hgap (opensWord_append_blanks hgap [])
  | cons c cs ih =>
    exact dividedAt_cons_congr (fun _ => opensWord_append_blanks hblank cs) fun _ => ih

theorem exists_trimEnd (cs : List Char) :
    ∃ gap, allBlank gap = true ∧ cs = trimEnd cs ++ gap := by
  refine ⟨(cs.reverse.takeWhile isBlank).reverse, ?_, ?_⟩
  · rw [allBlank, List.all_reverse, List.all_eq_true]
    exact fun c hc => List.mem_takeWhile_imp hc
  · rw [trimEnd, ← List.reverse_append, List.takeWhile_append_dropWhile, List.reverse_reverse]

theorem dividedAt_trim (cs : List Char) : DividedAt (trim cs) k ↔ DividedAt cs k := by
  obtain ⟨gap, hblank, heq⟩ := exists_trimEnd (trimStart cs)
  rw [← dividedAt_trimStart cs, heq, dividedAt_append_blanks hblank, trim]

theorem solids_trim (cs : List Char) : solids (trim cs) = solids cs := by
  obtain ⟨gap, hblank, heq⟩ := exists_trimEnd (trimStart cs)
  have hstart : cs = cs.takeWhile isBlank ++ trimStart cs := List.takeWhile_append_dropWhile.symm
  have hfront : allBlank (cs.takeWhile isBlank) = true :=
    List.all_eq_true.mpr fun c hc => List.mem_takeWhile_imp hc
  rw [hstart, solids_append, solids_of_allBlank hfront, List.nil_append, ← hstart, heq,
    solids_append, solids_of_allBlank hblank, List.append_nil, trim]

end Trimmed

section Collapsed

theorem head_collapseBlanks_word (hc : isTypeWord c = true)
    (h : (solids cs).head?.any isTypeWord = true) :
    (collapseBlanks (some c) true cs).head? = some ' ' := by
  induction cs with
  | nil => cases h
  | cons d cs ih =>
    rw [collapseBlanks]
    split
    case isTrue hd => exact ih (by rwa [solids_cons_blank hd] at h)
    case isFalse hd =>
      rw [Bool.not_eq_true] at hd
      have hword : isTypeWord d = true := by simpa [solids_cons hd] using h
      have hspaced : (true && ((some c).map isTypeWord).getD false && isTypeWord d) = true := by
        simp [hc, hword]
      exact congrArg (fun front => (front ++ collapseBlanks (some d) false cs).head?)
        (if_pos hspaced)

theorem opensWord_collapseBlanks (hc : isTypeWord c = true) (cs : List Char) :
    opensWord (collapseBlanks (some c) false cs) = opensWord cs := by
  rw [opensWord, solids_collapseBlanks]
  cases cs with
  | nil => rfl
  | cons d cs =>
    rw [collapseBlanks]
    split
    case isTrue hd =>
      rw [opensWord, solids_cons_blank hd]
      cases hword : (solids cs).head?.any isTypeWord with
      | false => simp
      | true =>
        have hspace : isBlank ' ' = true := by decide
        rw [head_collapseBlanks_word hc hword]
        simp [hspace, hd]
    case isFalse hd =>
      rw [Bool.not_eq_true] at hd
      simp [opensWord, hd]

theorem dividedAt_collapseBlanks (last : Option Char) (pending : Bool) (cs : List Char) :
    DividedAt (collapseBlanks last pending cs) k ↔ DividedAt cs k := by
  induction cs generalizing last pending k with
  | nil => rfl
  | cons c cs ih =>
    rw [collapseBlanks]
    split
    case isTrue hc => rw [ih, dividedAt_cons_blank hc]
    case isFalse hc =>
      have hspace : isBlank ' ' = true := by decide
      have hcons : DividedAt (c :: collapseBlanks (some c) false cs) k ↔ DividedAt (c :: cs) k :=
        dividedAt_cons_congr (fun hword => opensWord_collapseBlanks hword cs)
          fun _ => ih (some c) false
      dsimp only
      split
      · rw [List.cons_append, dividedAt_cons_blank hspace]
        exact hcons
      · exact hcons

theorem solids_collapseType (cs : List Char) : solids (collapseType cs) = solids cs := by
  rw [collapseType, solids_collapseBlanks, solids_trim]

theorem dividedAt_collapseType (cs : List Char) :
    DividedAt (collapseType cs) k ↔ DividedAt cs k := by
  rw [collapseType, dividedAt_collapseBlanks, dividedAt_trim]

end Collapsed

section Tight

-- Whether the character in front of some place is one of a word, given the same for the place in
-- front of the whole text.
def endsWord (worded : Bool) : List Char → Bool
  | [] => worded
  | c :: cs => endsWord (isTypeWord c) cs

theorem exists_of_endsWord (h : endsWord worded front = true) :
    front = [] ∧ worded = true ∨ ∃ before a, front = before ++ [a] ∧ isTypeWord a = true := by
  induction front generalizing worded with
  | nil => exact .inl ⟨rfl, h⟩
  | cons c front ih =>
    obtain ⟨rfl, hc⟩ | ⟨before, a, rfl, ha⟩ := ih h
    · exact .inr ⟨[], c, rfl, hc⟩
    · exact .inr ⟨c :: before, a, rfl, ha⟩

-- A blank in a tight text is a space with a word in front of it and a word behind it.
theorem words_of_isTight (h : isTight worded (front ++ c :: back) = true) (hc : isBlank c = true) :
    c = ' ' ∧ endsWord worded front = true ∧ back.head?.any isTypeWord = true := by
  induction front generalizing worded with
  | nil =>
    simp only [List.nil_append, isTight, hc, if_true, Bool.and_eq_true, beq_iff_eq] at h
    exact ⟨h.left.left.left, h.left.left.right, h.left.right⟩
  | cons d front ih =>
    rw [List.cons_append, isTight] at h
    split at h
    case isTrue hd =>
      have hrest := ih (Bool.and_eq_true_iff.mp h).right
      rwa [← isTypeWord_eq_false_of_isBlank hd] at hrest
    case isFalse => exact ih h

-- A tight text begins with a blank only if that divides a word from another one in front of it.
theorem head_isBlank_of_isTight (h : isTight worded cs = true) :
    cs.head?.any isBlank = (worded && opensWord cs) := by
  cases cs with
  | nil => simp [opensWord]
  | cons c cs =>
    cases hc : isBlank c with
    | false => simp [opensWord, hc]
    | true =>
      have hfront : isTight worded ([] ++ c :: cs) = true := h
      obtain ⟨-, hworded, hhead⟩ := words_of_isTight hfront hc
      cases cs with
      | nil => cases hhead
      | cons d cs =>
        have hd : isTypeWord d = true := by simpa using hhead
        have hsolid := isBlank_eq_false_of_isTypeWord hd
        rw [show worded = true from hworded]
        simp [opensWord, hc, solids_cons_blank hc, solids_cons hsolid, hd]

theorem head_isBlank_congr (hxs : isTight worded xs = true) (hys : isTight worded ys = true)
    (hopens : worded = true → opensWord xs = opensWord ys) :
    xs.head?.any isBlank = ys.head?.any isBlank := by
  rw [head_isBlank_of_isTight hxs, head_isBlank_of_isTight hys]
  cases worded with
  | false => rfl
  | true => rw [hopens rfl]

-- A tight text has nothing in it but its other characters and what divides them.
theorem eq_of_isTight (hxs : isTight worded xs = true) (hys : isTight worded ys = true)
    (hsolids : solids xs = solids ys) (hopens : worded = true → opensWord xs = opensWord ys)
    (h : ∀ k, DividedAt xs k ↔ DividedAt ys k) : xs = ys := by
  induction xs generalizing worded ys with
  | nil =>
    cases ys with
    | nil => rfl
    | cons d ys =>
      have hd : isBlank d = false := by simpa using (head_isBlank_congr hxs hys hopens).symm
      simp [solids_cons hd] at hsolids
  | cons c xs ih =>
    have hhead := head_isBlank_congr hxs hys hopens
    cases ys with
    | nil =>
      have hc : isBlank c = false := by simpa using hhead
      simp [solids_cons hc] at hsolids
    | cons d ys =>
      have hcd : isBlank c = isBlank d := by simpa using hhead
      cases hc : isBlank c with
      | true =>
        have hd := hcd.symm.trans hc
        simp only [isTight, hc, hd, if_true, Bool.and_eq_true, beq_iff_eq] at hxs hys
        rw [solids_cons_blank hc, solids_cons_blank hd] at hsolids
        simp only [dividedAt_cons_blank hc, dividedAt_cons_blank hd] at h
        rw [hxs.left.left.left, hys.left.left.left,
          ih hxs.right hys.right hsolids (fun h => Bool.noConfusion h) h]
      | false =>
        have hd := hcd.symm.trans hc
        rw [isTight_cons hc] at hxs
        rw [isTight_cons hd] at hys
        rw [solids_cons hc, solids_cons hd, List.cons.injEq] at hsolids
        obtain ⟨rfl, hsolids⟩ := hsolids
        have hstep (k : Nat) := h (k + 1)
        simp only [dividedAt_cons_solid hc] at hstep
        refine congrArg (c :: ·) (ih hxs hys hsolids (fun hword => ?_) fun k => ?_)
        · have hfirst := hstep 0
          simpa [hword, not_dividedAt_zero, ← Bool.eq_iff_iff] using hfirst
        · cases k with
          | zero => simp [not_dividedAt_zero]
          | succ k => simpa using hstep (k + 1)

end Tight

section Forgotten

-- The blanks of a text are single spaces that divide two words, in another text as well.
def Spaced (source cs : List Char) : Prop :=
  ∀ front c back, cs = front ++ c :: back → isBlank c = true →
    c = ' ' ∧ (∃ before a, front = before ++ [a] ∧ isTypeWord a = true) ∧
      (∃ b behind, back = b :: behind ∧ isTypeWord b = true) ∧
        DividedAt source (solids front).length

theorem spaced_collapseType (cs : List Char) : Spaced cs (collapseType cs) := by
  intro front c back heq hc
  have htight := isTight_collapseType cs
  rw [heq] at htight
  obtain ⟨rfl, hends, hhead⟩ := words_of_isTight htight hc
  obtain ⟨-, hworded⟩ | ⟨before, a, rfl, ha⟩ := exists_of_endsWord hends
  · cases hworded
  cases back with
  | nil => cases hhead
  | cons b behind =>
    have hb : isTypeWord b = true := by simpa using hhead
    refine ⟨rfl, ⟨before, a, rfl, ha⟩, ⟨b, behind, rfl, hb⟩, (dividedAt_collapseType cs).mp ?_⟩
    have hgap : [' '] ≠ [] := List.cons_ne_nil ' ' []
    have hbetween := DividedAt.between before behind ha hb hgap (by decide)
    rw [heq, solids_append, solids_cons (isBlank_eq_false_of_isTypeWord ha)]
    simpa using hbetween

-- Two types are read alike if and only if they differ in blanks that divide no words.
theorem collapseType_forgets (cs : List Char) :
    collapseType (collapseType cs) = collapseType cs ∧ solids (collapseType cs) = solids cs ∧
      Spaced cs (collapseType cs) ∧
        ∀ ds, collapseType cs = collapseType ds ↔
          solids cs = solids ds ∧ ∀ k, DividedAt cs k ↔ DividedAt ds k := by
  refine ⟨collapseType_of_isTight (isTight_collapseType cs), solids_collapseType cs,
    spaced_collapseType cs, fun ds => ⟨fun heq => ⟨?_, fun k => ?_⟩, fun ⟨hsolids, h⟩ => ?_⟩⟩
  · rw [← solids_collapseType cs, heq, solids_collapseType]
  · rw [← dividedAt_collapseType cs, heq, dividedAt_collapseType]
  · refine eq_of_isTight (isTight_collapseType cs) (isTight_collapseType ds) ?_
      (fun h => Bool.noConfusion h) fun k => ?_
    · rw [solids_collapseType, solids_collapseType, hsolids]
    · rw [dividedAt_collapseType, dividedAt_collapseType, h]

end Forgotten

end ClassSplit.Signature
