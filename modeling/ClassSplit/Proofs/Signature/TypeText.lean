import ClassSplit.Proofs.Signature.Parts
import ClassSplit.Proofs.Text.Solid
import Mathlib.Data.List.TakeWhile

/-!
The texts of types. Reading a type leaves no superfluous blanks in it, and of a text without such
blanks it takes what looks like a type: words and dots, with anything in angle brackets. Main
statements: `collapseType_of_isTight`, `exists_readsBase` and `tidy_paramOfText`.
-/

namespace ClassSplit

open Text Signature

namespace Signature

variable {c : Char} {cs xs ys : List Char} {worded : Bool}

def isTypeWord (c : Char) : Bool := isWordChar c || c == '?'

theorem isBlank_eq_false_of_isTypeWord (h : isTypeWord c = true) : isBlank c = false := by
  obtain hword | rfl : isWordChar c = true ∨ c = '?' := by simpa [isTypeWord] using h
  · exact isBlank_eq_false_of_isWordChar hword
  · decide

theorem isWordChar_eq_false_of_isBlank (h : isBlank c = true) : isWordChar c = false := by
  cases hword : isWordChar c with
  | false => rfl
  | true => rw [isBlank_eq_false_of_isWordChar hword] at h; cases h

theorem ne_of_isBlank (h : isBlank c = true) (mark : Char) (hmark : isBlank mark = false) :
    c ≠ mark := by
  rintro rfl
  rw [h] at hmark
  cases hmark

-- A text whose only blanks are single spaces between two words, given whether a word stands in
-- front of it.
def isTight (worded : Bool) : List Char → Bool
  | [] => true
  | c :: cs =>
    if isBlank c then c == ' ' && worded && cs.head?.any isTypeWord && isTight false cs
    else isTight (isTypeWord c) cs

theorem isTight_cons (h : isBlank c = false) : isTight worded (c :: cs) = isTight (isTypeWord c) cs := by
  simp [isTight, h]

theorem isTight_of_isTight_false (h : isTight false cs = true) (worded : Bool) :
    isTight worded cs = true := by
  cases cs with
  | nil => rfl
  | cons c cs =>
    cases hc : isBlank c with
    | true => simp [isTight, hc] at h
    | false => rwa [isTight_cons hc] at h ⊢

theorem isTight_of_no_blank (h : ∀ c ∈ cs, isBlank c = false) : isTight worded cs = true := by
  induction cs generalizing worded with
  | nil => rfl
  | cons c cs ih =>
    rw [isTight_cons (h c List.mem_cons_self)]
    exact ih fun d hd => h d (List.mem_cons_of_mem _ hd)

-- What follows in a tight text is tight by itself, unless it begins with a blank.
theorem isTight_of_append (h : isTight worded (xs ++ ys) = true) : ∃ worded, isTight worded ys = true := by
  induction xs generalizing worded with
  | nil => exact ⟨worded, h⟩
  | cons c xs ih =>
    rw [List.cons_append, isTight] at h
    split_ifs at h
    · exact ih (Bool.and_eq_true_iff.mp h).right
    · exact ih h

theorem isTight_trimStart (h : isTight worded cs = true) : isTight false (trimStart cs) = true := by
  cases cs with
  | nil => rfl
  | cons c cs =>
    cases hc : isBlank c with
    | false =>
      rw [isTight_cons hc] at h
      rwa [trimStart_of_head hc, isTight_cons hc]
    | true =>
      obtain ⟨⟨-, hhead⟩, hrest⟩ : ((c = ' ' ∧ worded = true) ∧ cs.head?.any isTypeWord = true) ∧
          isTight false cs = true := by simpa [isTight, hc] using h
      cases cs with
      | nil => cases hhead
      | cons d cs =>
        have hd : isBlank d = false := isBlank_eq_false_of_isTypeWord (by simpa using hhead)
        rwa [trimStart, List.dropWhile_cons_of_pos hc, List.dropWhile_cons_of_neg (by simp [hd])]

theorem isTight_append (hxs : isTight worded xs = true) (hys : isTight false ys = true) :
    isTight worded (xs ++ ys) = true := by
  induction xs generalizing worded with
  | nil => exact isTight_of_isTight_false hys worded
  | cons c xs ih =>
    rw [isTight] at hxs
    rw [List.cons_append, isTight]
    split_ifs at hxs ⊢
    · simp only [Bool.and_eq_true] at hxs ⊢
      refine ⟨⟨hxs.left.left, ?_⟩, ih hxs.right⟩
      cases xs with
      | nil => simp at hxs
      | cons d xs => simpa using hxs.left.right
    · exact ih hxs

-- A tight text ends tightly wherever it does not end with a blank.
theorem isTight_of_append_left (h : isTight worded (xs ++ ys) = true)
    (hlast : xs.getLast?.all (!isBlank ·) = true) : isTight worded xs = true := by
  induction xs generalizing worded with
  | nil => rfl
  | cons c xs ih =>
    rw [List.cons_append, isTight] at h
    rw [isTight]
    split_ifs at h ⊢ with hc
    · simp only [Bool.and_eq_true] at h ⊢
      cases xs with
      | nil => simp [hc] at hlast
      | cons d xs => exact ⟨⟨h.left.left, by simpa using h.left.right⟩, ih h.right (by simpa using hlast)⟩
    · cases xs with
      | nil => rfl
      | cons d xs => exact ih h (by simpa using hlast)

theorem getLast_of_isTight (h : isTight worded cs = true) : cs.getLast?.all (!isBlank ·) = true := by
  induction cs generalizing worded with
  | nil => rfl
  | cons c cs ih =>
    rw [isTight] at h
    split_ifs at h with hc
    · simp only [Bool.and_eq_true] at h
      cases cs with
      | nil => simp at h
      | cons d cs => simpa using ih h.right
    · cases cs with
      | nil => simpa using hc
      | cons d cs => simpa using ih h

theorem trimEnd_of_isTight (h : isTight worded cs = true) : trimEnd cs = cs := by
  have hlast := getLast_of_isTight h
  rw [trimEnd]
  cases hrev : cs.reverse with
  | nil => simpa using hrev.symm
  | cons c front =>
    have hc : isBlank c = false := by
      rw [← List.head?_reverse, hrev] at hlast
      simpa using hlast
    rw [List.dropWhile_cons_of_neg (by simp [hc]), ← hrev, List.reverse_reverse]

theorem trimStart_of_isTight (h : isTight false cs = true) : trimStart cs = cs := by
  cases cs with
  | nil => rfl
  | cons c cs =>
    cases hc : isBlank c with
    | true => simp [isTight, hc] at h
    | false => exact trimStart_of_head hc

theorem trim_of_isTight (h : isTight false cs = true) : trim cs = cs := by
  rw [trim, trimStart_of_isTight h, trimEnd_of_isTight h]

theorem isTight_collapseBlanks (last : Option Char) (pending : Bool) (cs : List Char) :
    isTight ((last.map isTypeWord).getD false) (collapseBlanks last pending cs) = true := by
  induction cs generalizing last pending with
  | nil => rfl
  | cons c cs ih =>
    rw [collapseBlanks]
    split_ifs with hc
    · exact ih last true
    · have hrest : isTight (isTypeWord c) (collapseBlanks (some c) false cs) = true := ih (some c) false
      rw [Bool.not_eq_true] at hc
      change isTight _ ((if (pending && (last.map isTypeWord).getD false && isTypeWord c) = true
        then [' ', c] else [c]) ++ _) = true
      split_ifs with hspaced
      · simp only [Bool.and_eq_true] at hspaced
        have hspace : isBlank ' ' = true := by decide
        rw [hspaced.right] at hrest
        simp [isTight, hspace, hspaced, hc, hrest]
      · simp [isTight, hc, hrest]

theorem collapseBlanks_of_isTight (last : Option Char) (cs : List Char) :
    (isTight ((last.map isTypeWord).getD false) cs = true → collapseBlanks last false cs = cs) ∧
      (isTight false cs = true → (last.map isTypeWord).getD false = true →
        cs.head?.any isTypeWord = true → collapseBlanks last true cs = ' ' :: cs) := by
  induction cs generalizing last with
  | nil => simp [collapseBlanks]
  | cons c cs ih =>
    constructor
    · intro h
      rw [isTight] at h
      rw [collapseBlanks]
      split_ifs at h ⊢ with hc
      · simp only [Bool.and_eq_true, beq_iff_eq] at h
        obtain ⟨⟨⟨rfl, hlast⟩, hhead⟩, hrest⟩ := h
        exact (ih last).right hrest hlast hhead
      · simpa using (ih (some c)).left h
    · intro h hlast hhead
      have hc : isTypeWord c = true := by simpa using hhead
      rw [collapseBlanks, if_neg (by simp [isBlank_eq_false_of_isTypeWord hc])]
      rw [isTight_cons (isBlank_eq_false_of_isTypeWord hc)] at h
      have hspaced : (true && (last.map isTypeWord).getD false && isTypeWord c) = true := by
        simp [hlast, hc]
      have hrest := (ih (some c)).left h
      change (if (true && (last.map isTypeWord).getD false && isTypeWord c) = true
        then [' ', c] else [c]) ++ _ = _
      rw [if_pos hspaced, hrest]
      rfl

theorem isTight_collapseType (cs : List Char) : isTight false (collapseType cs) = true :=
  isTight_collapseBlanks none false _

theorem collapseType_of_isTight (h : isTight false cs = true) : collapseType cs = cs := by
  rw [collapseType, trim_of_isTight h]
  exact (collapseBlanks_of_isTight none cs).left h


-- How many pairs of angle brackets are open after a text, which may close more than it opens.
def angleDepth (depth : Int) : List Char → Int
  | [] => depth
  | c :: cs =>
    angleDepth (if c = '<' then depth + 1 else if c = '>' then depth - 1 else depth) cs

theorem angleDepth_append (depth : Int) (xs ys : List Char) :
    angleDepth depth (xs ++ ys) = angleDepth (angleDepth depth xs) ys := by
  induction xs generalizing depth with
  | nil => rfl
  | cons c xs ih => exact ih _

-- The characters of a type outside of type arguments.
def isTypeMark (c : Char) : Bool := c = '<' || c = '>' || isWordChar c || c == '.' || c == '?'

-- The name of a type with any type arguments: outside of angle brackets it has only words and dots,
-- fewer than three in a row.
def isSpanned (depth : Int) : List Char → Bool
  | [] => true
  | c :: cs =>
    (0 < depth || isTypeMark c && !dots.isPrefixOf (c :: cs))
      && isSpanned (if c = '<' then depth + 1 else if c = '>' then depth - 1 else depth) cs

theorem isSpanned_cons (depth : Int) (c : Char) (cs : List Char) :
    isSpanned depth (c :: cs) =
      ((0 < depth || isTypeMark c && !dots.isPrefixOf (c :: cs))
        && isSpanned (angleDepth depth [c]) cs) := rfl

theorem isPrefixOf_append_of_isPrefixOf {p xs : List Char} (h : p.isPrefixOf xs = true)
    (ys : List Char) : p.isPrefixOf (xs ++ ys) = true := by
  rw [List.isPrefixOf_iff_prefix] at h ⊢
  exact h.trans (List.prefix_append _ _)

theorem isSpanned_append_left {depth : Int} (h : isSpanned depth (xs ++ ys) = true) :
    isSpanned depth xs = true := by
  induction xs generalizing depth with
  | nil => rfl
  | cons c xs ih =>
    simp only [List.cons_append, isSpanned, Bool.and_eq_true, Bool.or_eq_true,
      Bool.not_eq_true'] at h ⊢
    refine ⟨h.left.imp_right fun hmark => ⟨hmark.left, ?_⟩, ih h.right⟩
    by_contra hdots
    rw [Bool.not_eq_false] at hdots
    have := isPrefixOf_append_of_isPrefixOf hdots ys
    rw [List.cons_append, hmark.right] at this
    cases this

theorem isSpanned_append_right {depth : Int} (h : isSpanned depth (xs ++ ys) = true) :
    isSpanned (angleDepth depth xs) ys = true := by
  induction xs generalizing depth with
  | nil => exact h
  | cons c xs ih => exact ih (Bool.and_eq_true_iff.mp h).right

theorem spanType_cons (depth : Int) (c : Char) (cs : List Char) :
    spanType depth (c :: cs) =
      if depth ≤ 0 ∧ dots.isPrefixOf (c :: cs) then ([], c :: cs)
      else if 0 < depth || isTypeMark c || isBlank c && continuesType (trimStart (c :: cs)) then
        (c :: (spanType (angleDepth depth [c]) cs).1, (spanType (angleDepth depth [c]) cs).2)
      else ([], c :: cs) := by
  rw [spanType]
  by_cases hdots : depth ≤ 0 ∧ dots.isPrefixOf (c :: cs) = true
  · rw [if_pos hdots, if_pos hdots]
  rw [if_neg hdots, if_neg hdots]
  by_cases hopen : c = '<'
  · simp [hopen, isTypeMark, angleDepth]
  by_cases hclose : c = '>'
  · simp [hclose, isTypeMark, angleDepth]
  have hdepth : angleDepth depth [c] = depth := by simp [angleDepth, hopen, hclose]
  have hmark : (decide (0 < depth) || isTypeMark c) =
      (decide (0 < depth) || isWordChar c || c == '.' || c == '?') := by
    simp [isTypeMark, hopen, hclose, Bool.or_assoc]
  rw [if_neg hopen, if_neg hclose, hmark, hdepth]
  cases hword : decide (0 < depth) || isWordChar c || c == '.' || c == '?' with
  | true => rfl
  | false => rfl

theorem spanType_append (depth : Int) (cs : List Char) :
    (spanType depth cs).1 ++ (spanType depth cs).2 = cs := by
  induction cs generalizing depth with
  | nil => rfl
  | cons c cs ih =>
    rw [spanType_cons]
    split_ifs
    · rfl
    · rw [List.cons_append, ih]
    · rfl

-- A type is divided from what follows it where no more angle brackets are open than are closed.
theorem stops_spanType {depth : Int} {rest : List Char} (h : (spanType depth cs).2 = c :: rest) :
    angleDepth depth (spanType depth cs).1 ≤ 0 ∧
      (isTypeMark c = false ∨ dots.isPrefixOf (c :: rest) = true) := by
  induction cs generalizing depth with
  | nil => cases h
  | cons d cs ih =>
    rw [spanType_cons] at h ⊢
    split_ifs at h ⊢ with hdots htaken
    · cases h
      exact ⟨hdots.left, .inr hdots.right⟩
    · exact ih h
    · cases h
      simp only [Bool.or_eq_true, not_or, decide_eq_true_eq, Bool.not_eq_true] at htaken
      exact ⟨by simpa [angleDepth] using htaken.left.left, .inl htaken.left.right⟩

-- In a tight text a blank outside of type arguments ends a type.
theorem continuesType_of_isTight (h : isTight worded (c :: cs) = true) (hc : isBlank c = true) :
    continuesType (trimStart (c :: cs)) = false := by
  rw [isTight, if_pos hc] at h
  simp only [Bool.and_eq_true] at h
  cases cs with
  | nil => simp at h
  | cons d cs =>
    have hd : isTypeWord d = true := by simpa using h.left.right
    have hblank := isBlank_eq_false_of_isTypeWord hd
    rw [trimStart, List.dropWhile_cons_of_pos hc, List.dropWhile_cons_of_neg (by simp [hblank])]
    have hne (mark : Char) (hmark : isTypeWord mark = false) : d ≠ mark := by
      rintro rfl
      rw [hmark] at hd
      cases hd
    have hbracket := hne '[' (by decide)
    have hangle := hne '<' (by decide)
    have hdot := hne '.' (by decide)
    simp [continuesType, hbracket, hangle, dots, List.isPrefixOf_cons_cons, Ne.symm hdot]

theorem isSpanned_spanType {depth : Int} (h : isTight worded cs = true) :
    isSpanned depth (spanType depth cs).1 = true := by
  induction cs generalizing depth worded with
  | nil => rfl
  | cons c cs ih =>
    have hsplit : isTight worded ([c] ++ cs) = true := h
    obtain ⟨worded', hrest⟩ := isTight_of_append hsplit
    rw [spanType_cons]
    split_ifs with hdots htaken
    · rfl
    · rw [isSpanned, Bool.and_eq_true]
      refine ⟨?_, ih hrest⟩
      rw [Bool.or_eq_true, decide_eq_true_eq, Bool.and_eq_true, Bool.not_eq_true']
      by_cases hdepth : 0 < depth
      · exact .inl hdepth
      · refine .inr ⟨?_, ?_⟩
        · cases hc : isBlank c with
          | false => simpa [hc, hdepth] using htaken
          | true => simpa [hdepth, continuesType_of_isTight h hc] using htaken
        · by_contra hprefix
          rw [Bool.not_eq_false] at hprefix
          have := isPrefixOf_append_of_isPrefixOf hprefix (spanType (angleDepth depth [c]) cs).2
          rw [List.cons_append, spanType_append] at this
          exact hdots ⟨Int.not_lt.mp hdepth, this⟩
    · rfl

theorem isWhole_of_blanks (h : ∀ c ∈ cs, isBlank c = true) : isWhole 0 cs = true := by
  induction cs with
  | nil => rfl
  | cons c cs ih =>
    have hc := h c List.mem_cons_self
    have hne := ne_of_isBlank hc
    simpa [isWhole, opens, closes, hne '<' (by decide), hne '(' (by decide), hne '[' (by decide),
      hne '>' (by decide), hne ')' (by decide), hne ']' (by decide), hne ',' (by decide)]
      using ih fun d hd => h d (List.mem_cons_of_mem _ hd)

theorem isWhole_add {k depth : Nat} (hxs : isWhole depth xs = true) (hys : isWhole k ys = true) :
    isWhole (depth + k) (xs ++ ys) = true := by
  induction xs generalizing depth with
  | nil =>
    have hdepth : depth = 0 := by simpa [isWhole] using hxs
    simpa [hdepth] using hys
  | cons c xs ih =>
    simp only [List.cons_append, isWhole] at hxs ⊢
    split_ifs at hxs ⊢ with hopen hclose
    · rw [Nat.add_right_comm]
      exact ih hxs
    · simp only [Bool.and_eq_true, decide_eq_true_eq] at hxs ⊢
      rw [Nat.sub_add_comm hxs.left]
      exact ⟨Nat.add_pos_left hxs.left k, ih hxs.right⟩
    · simp only [Bool.and_eq_true, Bool.or_eq_true, decide_eq_true_eq] at hxs ⊢
      exact ⟨hxs.left.imp_left fun hpos => Nat.add_pos_left hpos k, ih hxs.right⟩

-- Pairs of brackets, with blanks anywhere.
structure IsDims (cs : List Char) : Prop where
  chars : ∀ c ∈ cs, isBlank c = true ∨ c = '[' ∨ c = ']'
  whole : isWhole 0 cs = true

theorem IsDims.append (hxs : IsDims xs) (hys : IsDims ys) : IsDims (xs ++ ys) where
  chars c hc := (List.mem_append.mp hc).elim (hxs.chars c) (hys.chars c)
  whole := isWhole_append hxs.whole hys.whole

theorem IsDims.of_blanks (h : ∀ c ∈ cs, isBlank c = true) : IsDims cs where
  chars c hc := .inl (h c hc)
  whole := isWhole_of_blanks h

theorem IsDims.pair (h : ∀ c ∈ cs, isBlank c = true) : IsDims ('[' :: (cs ++ [']'])) where
  chars := by
    intro c hc
    simp only [List.mem_cons, List.mem_append, List.not_mem_nil, or_false] at hc
    obtain rfl | hc | rfl := hc
    · exact .inr (.inl rfl)
    · exact .inl (h c hc)
    · exact .inr (.inr rfl)
  whole := isWhole_add (isWhole_of_blanks h) (by decide : isWhole 1 [']'] = true)

-- Only pairs of brackets are taken off a type.
theorem takeDimsBack_spec (back : List Char) :
    ∃ removed, back = removed ++ (takeDimsBack back).1 ∧ IsDims removed.reverse ∧
      (takeDimsBack back).1.head?.all (!isBlank ·) = true := by
  fun_induction takeDimsBack back with
  | case1 => exact ⟨[], rfl, .of_blanks (by simp), rfl⟩
  | case2 c cs hc ih =>
    obtain ⟨removed, hsplit, hdims, hhead⟩ := ih
    refine ⟨c :: removed, by rw [List.cons_append, ← hsplit], ?_, hhead⟩
    rw [List.reverse_cons]
    exact hdims.append (.of_blanks (by simpa using hc))
  | case3 cs rest hrest hclose found ih =>
    obtain ⟨removed, hsplit, hdims, hhead⟩ := ih
    have hblanks : ∀ c ∈ cs.takeWhile isBlank, isBlank c = true := fun _ => List.mem_takeWhile_imp
    have htrim : cs.takeWhile isBlank ++ '[' :: rest = cs := by
      rw [← hrest, trimStart, List.takeWhile_append_dropWhile]
    refine ⟨']' :: (cs.takeWhile isBlank ++ '[' :: removed), ?_, ?_, hhead⟩
    · rw [List.cons_append, List.append_assoc, List.cons_append, ← hsplit, htrim]
    · have hpair : IsDims ('[' :: ((cs.takeWhile isBlank).reverse ++ [']'])) :=
        .pair (by simpa using hblanks)
      simpa using hdims.append hpair
  | case4 => exact ⟨[], rfl, .of_blanks (by simp), (by decide : (!isBlank ']') = true)⟩
  | case5 c cs hc hclose => exact ⟨[], rfl, .of_blanks (by simp), by simpa using hc⟩

theorem splitDims_spec (cs : List Char) :
    ∃ ds, cs = (splitDims cs).1 ++ ds ∧ IsDims ds ∧
      (splitDims cs).1.getLast?.all (!isBlank ·) = true := by
  obtain ⟨removed, hsplit, hdims, hhead⟩ := takeDimsBack_spec cs.reverse
  refine ⟨removed.reverse, ?_, hdims, ?_⟩
  · rw [splitDims, ← List.reverse_append, ← hsplit, List.reverse_reverse]
  · rw [splitDims, List.getLast?_reverse]
    exact hhead

-- The base of the type that a text begins with.
def baseOf (cs : List Char) : List Char := (splitDims (spanType 0 cs).1).1

theorem base_paramOfText (cs : List Char) :
    (paramOfText cs).base.toList = collapseType (baseOf (trim (dropParamModifiers cs))) :=
  String.toList_ofList

-- What is read of a tight text: a base, then pairs of brackets, then what is left where the type
-- ends.
structure ReadsBase (cs base dims rest : List Char) : Prop where
  split : cs = base ++ dims ++ rest
  isDims : IsDims dims
  tight : isTight false base = true
  spanned : isSpanned 0 (base ++ dims) = true
  stops : ∀ c tail, rest = c :: tail →
    angleDepth 0 (base ++ dims) ≤ 0 ∧ (isTypeMark c = false ∨ dots.isPrefixOf rest = true)

theorem exists_readsBase (h : isTight false cs = true) :
    ∃ dims rest, ReadsBase cs (baseOf cs) dims rest := by
  obtain ⟨dims, hdims, hpairs, hlast⟩ := splitDims_spec (spanType 0 cs).1
  have hsplit : cs = baseOf cs ++ dims ++ (spanType 0 cs).2 := by
    rw [baseOf, ← hdims, spanType_append]
  refine ⟨dims, (spanType 0 cs).2, hsplit, hpairs, ?_, ?_, ?_⟩
  · rw [hsplit, List.append_assoc] at h
    exact isTight_of_append_left h hlast
  · rw [baseOf, ← hdims]
    exact isSpanned_spanType h
  · intro c tail hrest
    rw [baseOf, ← hdims, hrest]
    exact stops_spanType hrest

theorem annotationRest_suffix (cs : List Char) : annotationRest cs <:+ cs := by
  have hgroup (depth : Nat) (cs : List Char) : afterGroup depth cs <:+ cs := by
    fun_induction afterGroup depth cs with
    | case1 => exact List.suffix_refl _
    | case2 depth cs ih => exact ih.trans (List.suffix_cons _ _)
    | case3 depth cs => exact List.suffix_cons _ _
    | case4 depth cs _ _ ih => exact ih.trans (List.suffix_cons _ _)
    | case5 depth c cs _ _ ih => exact ih.trans (List.suffix_cons _ _)
  have hrest : trimStart (cs.dropWhile fun c => isWordChar c || c == '.') <:+ cs :=
    (List.dropWhile_suffix _).trans (List.dropWhile_suffix _)
  rw [annotationRest]
  split
  · exact (hgroup _ _).trans hrest
  · exact hrest

theorem afterFinal?_suffix {rest : List Char} (h : afterFinal? cs = some rest) : rest <:+ cs := by
  unfold afterFinal? at h
  split at h
  · split_ifs at h
    cases h
    exact ⟨"final".toList, rfl⟩
  · cases h

theorem dropParamModifiers_suffix (cs : List Char) : dropParamModifiers cs <:+ cs := by
  have htrim (cs : List Char) : trimStart cs <:+ cs := List.dropWhile_suffix _
  fun_induction dropParamModifiers cs with
  | case1 => exact List.nil_suffix
  | case2 cs rest hcs ih =>
    have hrest : rest <:+ cs := (hcs ▸ List.suffix_cons _ _ : rest <:+ trimStart cs).trans (htrim cs)
    exact ih.trans ((annotationRest_suffix rest).trans hrest)
  | case3 cs c rest hcs hsign rest' hfinal ih =>
    exact ih.trans ((afterFinal?_suffix hfinal).trans (hcs ▸ htrim cs))
  | case4 cs c rest hcs => exact hcs ▸ htrim cs

end Signature

namespace ParamType

-- What the base of a type is like when it has been read from a tight text.
structure Tidy (p : ParamType) : Prop where
  tight : isTight false p.base.toList = true
  spanned : isSpanned 0 p.base.toList = true

end ParamType

namespace Signature

variable {c : Char} {cs xs ys : List Char} {worded : Bool}

theorem tidy_of_tight (h : isTight false (trim (dropParamModifiers cs)) = true) :
    (paramOfText cs).Tidy := by
  obtain ⟨dims, rest, hreads⟩ := exists_readsBase h
  have hbase : (paramOfText cs).base.toList = baseOf (trim (dropParamModifiers cs)) := by
    rw [base_paramOfText, collapseType_of_isTight hreads.tight]
  exact ⟨hbase ▸ hreads.tight, hbase ▸ isSpanned_append_left hreads.spanned⟩

theorem tidy_paramOfText (h : isTight worded cs = true) : (paramOfText cs).Tidy := by
  refine tidy_of_tight ?_
  obtain ⟨front, hfront⟩ := dropParamModifiers_suffix cs
  obtain ⟨worded', hrest⟩ := isTight_of_append (hfront ▸ h)
  have htight := isTight_trimStart hrest
  rwa [trim, trimEnd_of_isTight htight]

-- A comma divides a tight text into tight texts.
theorem isTight_of_comma (h : isTight worded (xs ++ ',' :: ys) = true) :
    isTight worded xs = true ∧ isTight false ys = true := by
  induction xs generalizing worded with
  | nil => exact ⟨rfl, h⟩
  | cons c xs ih =>
    rw [List.cons_append, isTight] at h
    rw [isTight]
    split_ifs at h ⊢
    · simp only [Bool.and_eq_true] at h ⊢
      obtain ⟨hxs, hys⟩ := ih h.right
      refine ⟨⟨⟨h.left.left, ?_⟩, hxs⟩, hys⟩
      cases xs with
      | nil => simp [isTypeWord, show isWordChar ',' = false by decide] at h
      | cons d xs => simpa using h.left.right
    · exact ih h

theorem isTight_of_mem_splitTopLevel {depth : Int} {part : List Char}
    (h : isTight worded cs = true) (hpart : part ∈ splitTopLevel depth cs) :
    ∃ worded, isTight worded part = true := by
  induction hlength : cs.length using Nat.strong_induction_on generalizing cs depth worded with
  | _ length ih =>
    obtain ⟨first, others, hsplit⟩ := List.exists_cons_of_ne_nil (splitTopLevel_ne_nil depth cs)
    rw [hsplit] at hpart
    obtain ⟨rfl, rfl⟩ | ⟨rest, rfl, -, rfl⟩ := (firstPart_of_splitTopLevel hsplit).rest
    · exact ⟨worded, by rwa [List.mem_singleton.mp hpart]⟩
    · obtain ⟨hfirst, hrest⟩ := isTight_of_comma h
      cases List.mem_cons.mp hpart with
      | inl heq => exact ⟨worded, heq ▸ hfirst⟩
      | inr hmem => exact ih rest.length (by simp [← hlength]; omega) hrest hmem rfl

end Signature

end ClassSplit
