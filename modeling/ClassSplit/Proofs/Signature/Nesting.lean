import ClassSplit.Proofs.Signature.Erasure
import ClassSplit.Proofs.Signature.TypeText

/-!
Brackets that are closed in turn. The name of a type that closes its brackets in the order in which
they were opened is taken as a whole by the reader of types, and the brackets and dots that may
stand behind it leave nothing open. Main statements: `isSpanned_of_isTypeName`,
`isWhole_of_openAfter`, `closing_of_nested`.
-/

namespace ClassSplit

open Text Signature

namespace Signature

open ParamType

variable {depth : Int} {c : Char} {cs xs ys opened left : List Char}

theorem isMark_iff : isMark c = true ↔ c = '[' ∨ c = ']' ∨ c = '.' := by simp [isMark]

theorem isBlank_of_isMark (h : isMark c = true) : isBlank c = false := by
  obtain rfl | rfl | rfl := isMark_iff.mp h
  all_goals decide

-- Brackets and dots as they may stand behind a type.
structure IsMarks (cs : List Char) : Prop where
  whole : isWhole 0 cs = true
  isMark : ∀ c ∈ cs, isMark c = true

theorem isMarks_nil : IsMarks [] := ⟨rfl, by simp⟩

theorem IsMarks.append (hxs : IsMarks xs) (hys : IsMarks ys) : IsMarks (xs ++ ys) where
  whole := isWhole_append hxs.whole hys.whole
  isMark c hc := (List.mem_append.mp hc).elim (hxs.isMark c) (hys.isMark c)

theorem IsMarks.tight (h : IsMarks cs) : isTight false cs = true :=
  isTight_of_no_blank fun c hc => isBlank_of_isMark (h.isMark c hc)

-- Whether a bracket closes the one that was opened last.
def pairs (opening closing : Char) : Bool :=
  opening = '<' && closing = '>' || opening = '(' && closing = ')'
    || opening = '[' && closing = ']'

-- What is open when a bracket has closed the one that was opened last.
def afterClosing? (c : Char) : List Char → Option (List Char)
  | [] => none
  | o :: rest => if pairs o c then some rest else none

-- The brackets that are open after a text, the innermost first, unless one closes another.
def openAfter (opened : List Char) : List Char → Option (List Char)
  | [] => some opened
  | c :: cs =>
    if opens c then openAfter (c :: opened) cs
    else if closes c then (afterClosing? c opened).bind fun rest => openAfter rest cs
    else openAfter opened cs

theorem openAfter_append (opened xs ys : List Char) :
    openAfter opened (xs ++ ys) = (openAfter opened xs).bind fun left => openAfter left ys := by
  induction xs generalizing opened with
  | nil => rfl
  | cons c xs ih =>
    rw [List.cons_append, openAfter, openAfter]
    split_ifs
    · exact ih _
    · cases afterClosing? c opened with
      | none => rfl
      | some rest => exact ih rest
    · exact ih opened

theorem opens_iff : opens c = true ↔ c = '<' ∨ c = '(' ∨ c = '[' := by simp [opens]

theorem closes_iff : closes c = true ↔ c = '>' ∨ c = ')' ∨ c = ']' := by simp [closes]

-- One step in front of the other characters.
theorem openAfter_cons (h : openAfter opened (c :: cs) = some left) :
    (opens c = true ∧ openAfter (c :: opened) cs = some left) ∨
      (opens c = false ∧ closes c = true ∧
        ∃ o rest, opened = o :: rest ∧ pairs o c = true ∧ openAfter rest cs = some left) ∨
      opens c = false ∧ closes c = false ∧ openAfter opened cs = some left := by
  rw [openAfter] at h
  split_ifs at h with hopen hclose
  · exact .inl ⟨hopen, h⟩
  · rw [Bool.not_eq_true] at hopen
    obtain ⟨rest, hrest, hleft⟩ := Option.bind_eq_some_iff.mp h
    cases opened with
    | nil => cases hrest
    | cons o rest' =>
      rw [afterClosing?] at hrest
      split_ifs at hrest with hpairs
      cases hrest
      exact .inr (.inl ⟨hopen, hclose, o, rest, rfl, hpairs, hleft⟩)
  · rw [Bool.not_eq_true] at hopen hclose
    exact .inr (.inr ⟨hopen, hclose, h⟩)

theorem bracketDepth_of_openAfter (h : openAfter opened cs = some left) (depth : Int) :
    bracketDepth depth cs = depth + left.length - opened.length := by
  induction cs generalizing opened depth with
  | nil =>
    cases h
    simp [bracketDepth]
  | cons c cs ih =>
    rw [bracketDepth]
    obtain ⟨hopen, h⟩ | ⟨hopen, hclose, o, rest, rfl, -, h⟩ | ⟨hopen, hclose, h⟩ := openAfter_cons h
    · rw [if_pos hopen, ih h, List.length_cons]
      push_cast
      omega
    · rw [if_neg (by simp [hopen]), if_pos hclose, ih h, List.length_cons]
      push_cast
      omega
    · rw [if_neg (by simp [hopen]), if_neg (by simp [hclose]), ih h]

theorem angleDepth_of_openAfter (h : openAfter opened cs = some left) (depth : Int) :
    angleDepth depth cs = depth + left.count '<' - opened.count '<' := by
  induction cs generalizing opened depth with
  | nil =>
    cases h
    simp [angleDepth]
  | cons c cs ih =>
    rw [angleDepth]
    obtain ⟨hopen, h⟩ | ⟨hopen, hclose, o, rest, rfl, hpairs, h⟩ | ⟨hopen, hclose, h⟩ :=
      openAfter_cons h
    · rw [ih h]
      obtain rfl | rfl | rfl := opens_iff.mp hopen
      all_goals simp
      omega
    · rw [ih h]
      obtain rfl | rfl | rfl := closes_iff.mp hclose
      all_goals
        simp only [pairs, Bool.or_eq_true, Bool.and_eq_true, decide_eq_true_eq] at hpairs
        simp at hpairs
        subst hpairs
        simp
      omega
    · rw [ih h]
      have hangle : c ≠ '<' := by rintro rfl; cases hopen
      have hangle' : c ≠ '>' := by rintro rfl; cases hclose
      simp [hangle, hangle']

-- All open brackets, if any, are in angle brackets.
def InAngles (opened : List Char) : Prop := ∀ o, opened.getLast? = some o → o = '<'

theorem inAngles_nil : InAngles [] := by simp [InAngles]

theorem InAngles.push (h : InAngles opened) (hc : opened = [] → c = '<') : InAngles (c :: opened) := by
  intro o ho
  cases opened with
  | nil =>
    obtain rfl : c = o := by simpa using ho
    exact hc rfl
  | cons d rest => exact h o (by simpa using ho)

theorem InAngles.tail {o : Char} (h : InAngles (o :: opened)) : InAngles opened := by
  intro d hd
  cases opened with
  | nil => cases hd
  | cons e rest => exact h d (by simpa using hd)

theorem InAngles.count_pos (h : InAngles opened) (hne : opened ≠ []) : 0 < opened.count '<' := by
  rw [List.count_pos_iff]
  have hlast := List.getLast?_eq_some_getLast hne
  exact h _ hlast ▸ List.getLast_mem hne

theorem exists_step_of_openAfter (h : openAfter opened (c :: cs) = some left) :
    ∃ opened', openAfter opened [c] = some opened' ∧ openAfter opened' cs = some left :=
  Option.bind_eq_some_iff.mp (openAfter_append opened [c] cs ▸ h)

theorem InAngles.step {opened' : List Char} (h : InAngles opened)
    (hc : opened = [] → isTypeMark c = true) (hstep : openAfter opened [c] = some opened') :
    InAngles opened' := by
  obtain ⟨hopen, heq⟩ | ⟨-, -, o, rest, rfl, -, heq⟩ | ⟨-, -, heq⟩ := openAfter_cons hstep
  · cases heq
    refine h.push fun hnil => ?_
    have htype := hc hnil
    obtain rfl | rfl | rfl := opens_iff.mp hopen
    · rfl
    · exact absurd htype (by decide)
    · exact absurd htype (by decide)
  · cases heq
    exact h.tail
  · cases heq
    exact h

-- In the text of a type everything that is open is open in angle brackets.
theorem InAngles.openAfter (h : InAngles opened) (hspanned : isSpanned (opened.count '<') cs = true)
    (hleft : openAfter opened cs = some left) : InAngles left := by
  induction cs generalizing opened with
  | nil =>
    cases hleft
    exact h
  | cons c cs ih =>
    obtain ⟨hfirst, hrest⟩ := Bool.and_eq_true_iff.mp hspanned
    obtain ⟨opened', hstep, hleft⟩ := exists_step_of_openAfter hleft
    have hcount : angleDepth (opened.count '<') [c] = opened'.count '<' := by
      rw [angleDepth_of_openAfter hstep]
      omega
    refine ih (h.step ?_ hstep) (hcount ▸ hrest) hleft
    rintro rfl
    have htype : isTypeMark c = true ∧ dots.isPrefixOf (c :: cs) = false := by simpa using hfirst
    exact htype.left

-- How the name of a type goes on behind a character.
theorem isTypeName_step {complete : Bool} {opened' : List Char}
    (h : isTypeName opened.length complete (c :: cs) = true)
    (hstep : openAfter opened [c] = some opened') :
    (∃ complete, isTypeName opened'.length complete cs = true) ∧
      (opened = [] → isTypeMark c = true ∧ dots.isPrefixOf (c :: cs) = false) := by
  rw [isTypeName] at h
  cases opened with
  | nil =>
    rw [if_pos List.length_nil] at h
    split_ifs at h with hangle hdot
    · subst hangle
      cases hstep
      exact ⟨⟨false, (Bool.and_eq_true_iff.mp h).right⟩, fun _ => ⟨rfl, rfl⟩⟩
    · subst hdot
      cases hstep
      have hrest := (Bool.and_eq_true_iff.mp h).right
      refine ⟨⟨false, hrest⟩, fun _ => ⟨rfl, ?_⟩⟩
      cases cs with
      | nil => rfl
      | cons d cs =>
        have hd : d ≠ '.' := by
          rintro rfl
          cases hrest
        simp [dots, List.isPrefixOf_cons_cons, Ne.symm hd]
    · obtain ⟨hword, hrest⟩ := Bool.and_eq_true_iff.mp h
      rw [openAfter, if_neg (by simp [opens_of_isWordChar hword]),
        if_neg (by simp [closes_of_isWordChar hword])] at hstep
      cases hstep
      refine ⟨⟨true, hrest⟩, fun _ => ⟨by simp [isTypeMark, hword], ?_⟩⟩
      simp [dots, List.isPrefixOf_cons_cons, Ne.symm hdot]
  | cons o rest =>
    refine ⟨?_, fun hnil => absurd hnil (List.cons_ne_nil o rest)⟩
    rw [if_neg (by simp)] at h
    obtain ⟨hopen, heq⟩ | ⟨hopen, hclose, o', rest', heq', -, heq⟩ | ⟨hopen, hclose, heq⟩ :=
      openAfter_cons hstep
    · rw [if_pos hopen] at h
      cases heq
      exact ⟨_, h⟩
    · rw [if_neg (by simp [hopen]), if_pos hclose] at h
      cases heq
      cases heq'
      exact ⟨_, (Bool.and_eq_true_iff.mp h).right⟩
    · rw [if_neg (by simp [hopen]), if_neg (by simp [hclose])] at h
      cases heq
      exact ⟨_, h⟩

-- The name of a type whose brackets are closed in turn is the text of a type.
theorem isSpanned_of_isTypeName {complete : Bool} (h : InAngles opened)
    (hname : isTypeName opened.length complete cs = true) (hleft : openAfter opened cs = some left) :
    isSpanned (opened.count '<') cs = true := by
  induction cs generalizing opened complete with
  | nil => rfl
  | cons c cs ih =>
    obtain ⟨opened', hstep, hleft⟩ := exists_step_of_openAfter hleft
    have hcount : angleDepth (opened.count '<') [c] = opened'.count '<' := by
      rw [angleDepth_of_openAfter hstep]
      omega
    obtain ⟨⟨complete', hrest⟩, hfirst⟩ := isTypeName_step hname hstep
    have hangles := h.step (fun hnil => (hfirst hnil).left) hstep
    rw [isSpanned_cons, hcount, Bool.and_eq_true]
    refine ⟨?_, ih hangles hrest hleft⟩
    by_cases hnil : opened = []
    · simp [hfirst hnil]
    · simpa using Or.inl (h.count_pos hnil)

-- Marks leave the brackets open that are open in front of them.
theorem openAfter_of_isWhole {k : Nat} (hwhole : isWhole k cs = true)
    (hopens : ∀ c ∈ cs, opens c = true → c = '[') (hcloses : ∀ c ∈ cs, closes c = true → c = ']') :
    openAfter (List.replicate k '[' ++ opened) cs = some opened := by
  induction cs generalizing k with
  | nil =>
    have hk : k = 0 := by simpa [isWhole] using hwhole
    simp [hk, openAfter]
  | cons c cs ih =>
    have hrest {k : Nat} (hwhole : isWhole k cs = true) :=
      ih hwhole (fun d hd => hopens d (List.mem_cons_of_mem _ hd))
        (fun d hd => hcloses d (List.mem_cons_of_mem _ hd))
    rw [isWhole] at hwhole
    rw [openAfter]
    split_ifs at hwhole ⊢ with hopen hclose
    · rw [hopens c List.mem_cons_self hopen]
      exact hrest hwhole
    · rw [hcloses c List.mem_cons_self hclose]
      obtain ⟨hk, hwhole⟩ := Bool.and_eq_true_iff.mp hwhole
      obtain ⟨j, rfl⟩ := Nat.exists_eq_succ_of_ne_zero (Nat.ne_of_gt (of_decide_eq_true hk))
      exact hrest hwhole
    · exact hrest (Bool.and_eq_true_iff.mp hwhole).right

theorem IsMarks.openAfter (h : IsMarks cs) : openAfter opened cs = some opened := by
  refine openAfter_of_isWhole (k := 0) h.whole ?_ ?_
  all_goals
    intro c hc
    obtain rfl | rfl | rfl := isMark_iff.mp (h.isMark c hc)
    all_goals decide

theorem IsDims.openAfter (h : IsDims cs) : openAfter opened cs = some opened := by
  refine openAfter_of_isWhole (k := 0) h.whole ?_ ?_
  · intro c hc hopen
    obtain hblank | rfl | rfl := h.chars c hc
    · obtain rfl | rfl | rfl := opens_iff.mp hopen
      all_goals exact absurd hblank (by decide)
    · rfl
    · cases hopen
  · intro c hc hclose
    obtain hblank | rfl | rfl := h.chars c hc
    · obtain rfl | rfl | rfl := closes_iff.mp hclose
      all_goals exact absurd hblank (by decide)
    · cases hclose
    · rfl

-- A text that closes its brackets in turn is whole if its commas are inside of them.
theorem isWhole_of_openAfter (h : openAfter opened cs = some [])
    (hinside : ∀ xs ys, cs = xs ++ ',' :: ys → 0 < bracketDepth opened.length xs) :
    isWhole opened.length cs = true := by
  induction cs generalizing opened with
  | nil =>
    cases h
    rfl
  | cons c cs ih =>
    have hrest {opened' : List Char} (h : openAfter opened' cs = some [])
        (hdepth : bracketDepth opened.length [c] = opened'.length) :
        isWhole opened'.length cs = true := by
      refine ih h fun xs ys heq => ?_
      rw [← hdepth]
      exact hinside (c :: xs) ys (by rw [heq, List.cons_append])
    rw [isWhole]
    obtain ⟨hopen, h⟩ | ⟨hopen, hclose, o, rest, rfl, -, h⟩ | ⟨hopen, hclose, h⟩ := openAfter_cons h
    · rw [if_pos hopen]
      exact hrest h (by simp [bracketDepth, hopen])
    · rw [if_neg (by simp [hopen]), if_pos hclose]
      simpa using hrest h (by simp [bracketDepth, hopen, hclose])
    · rw [if_neg (by simp [hopen]), if_neg (by simp [hclose]), Bool.and_eq_true]
      refine ⟨?_, hrest h (by simp [bracketDepth, hopen, hclose])⟩
      by_cases hcomma : c = ','
      · have hpos : 0 < bracketDepth opened.length [] := hinside [] cs (by rw [hcomma]; rfl)
        have : 0 < opened.length := by simpa [bracketDepth] using hpos
        simp [this]
      · simp [hcomma]

-- A text that closes the angle brackets that are open in front of it, and none besides.
structure Closing (depth : Int) (cs : List Char) : Prop where
  closed : angleDepth depth cs = 0
  nonneg : ∀ xs ys, cs = xs ++ ys → 0 ≤ angleDepth depth xs
  last : ∀ c, cs.getLast? = some c → isMark c = false

theorem Closing.append_right (h : Closing depth (xs ++ ys)) : Closing (angleDepth depth xs) ys where
  closed := by rw [← angleDepth_append, h.closed]
  nonneg us vs heq := by
    rw [← angleDepth_append]
    exact h.nonneg (xs ++ us) vs (by rw [heq, List.append_assoc])
  last c hc := by
    refine h.last c ?_
    rw [List.getLast?_append, hc]
    rfl

-- What is left of a type where it has been found to stop are dots.
theorem isMarks_of_stops {tail : List Char} (hdepth : depth ≤ 0) (h : isSpanned depth cs = true)
    (hstops : ∀ c rest, cs ++ tail = c :: rest →
      isTypeMark c = false ∨ dots.isPrefixOf (cs ++ tail) = true) : IsMarks cs := by
  cases cs with
  | nil => exact isMarks_nil
  | cons c cs =>
    have hfirst := (Bool.and_eq_true_iff.mp h).left
    simp only [Bool.or_eq_true, decide_eq_true_eq, Bool.and_eq_true, Bool.not_eq_true',
      Int.not_lt.mpr hdepth, false_or] at hfirst
    have hdots := (hstops c (cs ++ tail) rfl).resolve_left (by simp [hfirst.left])
    simp only [dots, List.cons_append, List.isPrefixOf_cons_cons, Bool.and_eq_true,
      beq_iff_eq] at hdots
    obtain ⟨rfl, hdots⟩ := hdots
    cases cs with
    | nil => exact ⟨by decide, by simp [isMark]⟩
    | cons d cs =>
      simp only [List.cons_append, List.isPrefixOf_cons_cons, Bool.and_eq_true, beq_iff_eq] at hdots
      obtain ⟨rfl, hdots⟩ := hdots
      cases cs with
      | nil => exact ⟨by decide, by simp [isMark]⟩
      | cons e cs =>
        simp only [List.cons_append, List.isPrefixOf_cons_cons, Bool.and_eq_true,
          beq_iff_eq] at hdots
        obtain ⟨rfl, -⟩ := hdots
        exact absurd hfirst.right (by simp [dots])

theorem angleDepth_mono {a b : Int} (h : a ≤ b) (cs : List Char) :
    angleDepth a cs ≤ angleDepth b cs := by
  induction cs generalizing a b with
  | nil => exact h
  | cons c cs ih =>
    refine ih ?_
    split_ifs
    all_goals omega

-- The name of a type does not end with marks.
theorem Closing.eq_nil (h : Closing depth (xs ++ ys)) (hys : ∀ c ∈ ys, isMark c = true) : ys = [] := by
  by_contra hne
  have hlast := h.last (ys.getLast hne) (by
    rw [List.getLast?_append, List.getLast?_eq_some_getLast hne]
    rfl)
  rw [hys _ (List.getLast_mem hne)] at hlast
  cases hlast

end Signature

namespace ParamType

variable {p : ParamType} {text : String}

theorem Writes.exists_isMarks (h : p.Writes text) :
    ∃ marks, text.toList = p.base.toList ++ marks ∧ IsMarks marks := by
  obtain ⟨marks, htext, hwhole, hmarks⟩ := h.exists_marks
  exact ⟨marks, htext, hwhole, hmarks⟩

theorem Writes.exists_toList (h : p.Writes text) :
    ∃ n tail, text.toList = p.base.toList ++ ((brackets n).toList ++ tail) ∧
      (tail = [] ∨ tail = dots) := by
  cases h with
  | bracketed n => exact ⟨n, [], by simp, .inl rfl⟩
  | dotted n => exact ⟨n, dots, by simp [dots], .inr rfl⟩

-- A type whose name closes its brackets in turn.
structure Nested (p : ParamType) : Prop where
  isTypeName : isTypeName 0 false p.base.toList = true
  closed : openAfter [] p.base.toList = some []

theorem Tidy.isTight_of_writes (hp : p.Tidy) (h : p.Writes text) :
    isTight false text.toList = true := by
  obtain ⟨marks, htext, hmarks⟩ := h.exists_isMarks
  exact htext ▸ isTight_append hp.tight hmarks.tight

end ParamType

namespace Signature

open ParamType

theorem closing_of_nested {p : ParamType} (h : p.Nested) : Closing 0 p.base.toList where
  closed := by simp [angleDepth_of_openAfter h.closed]
  nonneg xs ys heq := by
    obtain ⟨left, hleft, -⟩ := Option.bind_eq_some_iff.mp (openAfter_append [] xs ys ▸ heq ▸ h.closed)
    rw [angleDepth_of_openAfter hleft]
    simp
  last c hc := by
    obtain ⟨front, heq⟩ := List.getLast?_eq_some_iff.mp hc
    obtain hword | rfl := last_of_isTypeName (heq ▸ h.isTypeName)
    · simp [isMark, ne_of_isWordChar hword '[' (by decide), ne_of_isWordChar hword ']' (by decide),
        ne_of_isWordChar hword '.' (by decide)]
    · rfl

end Signature

end ClassSplit
