import ClassSplit.Proofs.Signature.Nesting

/-!
What is written canonically is read back. A signature whose types close their brackets in turn is
its own canonical spelling: reading what is written for it changes nothing. Main statement:
`WellNested.ofString_canonicalSignature`.
-/

namespace ClassSplit

open Text

namespace Signature

open ParamType

variable {depth : Int} {c : Char} {cs xs ys : List Char} {p : ParamType} {ps : List ParamType}
  {s : Signature} {text : String}

-- What is left of a list of types, given how many angle brackets of the first type are open.
inductive Listed : Int → List Char → Prop
  | last {depth : Int} {base marks : List Char} (spanned : isSpanned depth base = true)
      (isMarks : IsMarks marks) : Listed depth (base ++ marks)
  | next {depth : Int} {base marks rest : List Char} (spanned : isSpanned depth base = true)
      (isMarks : IsMarks marks) (listed : Listed 0 rest) :
      Listed depth (base ++ marks ++ ',' :: rest)

theorem listed_intercalate (h : ∀ p ∈ ps, p.Tidy) :
    Listed 0 ([','].intercalate (ps.map (·.canonical.toList))) := by
  induction ps with
  | nil =>
    have hnil : Listed 0 ([] ++ []) := .last rfl isMarks_nil
    exact hnil
  | cons p ps ih =>
    obtain ⟨marks, htext, hmarks⟩ := p.writes_canonical.exists_isMarks
    have hspanned := (h p List.mem_cons_self).spanned
    cases ps with
    | nil =>
      rw [List.map_singleton, List.intercalate_singleton, htext]
      exact .last hspanned hmarks
    | cons q ps =>
      have hrest := ih fun p hp => h p (List.mem_cons_of_mem _ hp)
      rw [List.map_cons] at hrest ⊢
      rw [List.map_cons, List.intercalate_cons_cons, htext, List.append_assoc,
        List.singleton_append]
      exact .next hspanned hmarks hrest

theorem isTight_intercalate {parts : List (List Char)}
    (h : ∀ part ∈ parts, isTight false part = true) :
    isTight false ([','].intercalate parts) = true := by
  induction parts with
  | nil => rfl
  | cons part parts ih =>
    have hpart := h part List.mem_cons_self
    cases parts with
    | nil => rwa [List.intercalate_singleton]
    | cons next parts =>
      have hrest := ih fun p hp => h p (List.mem_cons_of_mem _ hp)
      rw [List.intercalate_cons_cons]
      exact isTight_append (isTight_append hpart (by decide)) hrest

-- How a list of types goes on: with its first type, with what is behind that, or with a comma.
theorem Listed.cons_cases (h : Listed depth (c :: cs)) :
    ((0 < depth ∨ isTypeMark c = true) ∧ Listed (angleDepth depth [c]) cs) ∨
      isMark c = true ∨ c = ',' ∧ Listed 0 cs := by
  generalize htext : c :: cs = text at h
  cases h with
  | @last _ base marks spanned isMarks =>
    cases base with
    | nil =>
      rw [List.nil_append] at htext
      exact .inr (.inl (isMarks.isMark c (htext ▸ List.mem_cons_self)))
    | cons b base =>
      obtain ⟨rfl, rfl⟩ := List.cons.inj htext
      obtain ⟨hfirst, hrest⟩ := Bool.and_eq_true_iff.mp spanned
      refine .inl ⟨?_, .last hrest isMarks⟩
      rw [Bool.or_eq_true, decide_eq_true_eq, Bool.and_eq_true] at hfirst
      exact hfirst.imp_right And.left
  | @next _ base marks rest spanned isMarks listed =>
    cases base with
    | nil =>
      cases marks with
      | nil =>
        obtain ⟨rfl, rfl⟩ := List.cons.inj htext
        exact .inr (.inr ⟨rfl, listed⟩)
      | cons m marks =>
        obtain ⟨rfl, -⟩ := List.cons.inj htext
        exact .inr (.inl (isMarks.isMark _ List.mem_cons_self))
    | cons b base =>
      obtain ⟨rfl, rfl⟩ := List.cons.inj htext
      obtain ⟨hfirst, hrest⟩ := Bool.and_eq_true_iff.mp spanned
      refine .inl ⟨?_, .next hrest isMarks listed⟩
      rw [Bool.or_eq_true, decide_eq_true_eq, Bool.and_eq_true] at hfirst
      exact hfirst.imp_right And.left

theorem Listed.of_word (h : Listed 0 (c :: cs)) (hc : isWordChar c = true) : Listed 0 cs := by
  have hdepth : angleDepth 0 [c] = 0 := by
    simp [angleDepth, ne_of_isWordChar hc '<' (by decide), ne_of_isWordChar hc '>' (by decide)]
  obtain ⟨-, hrest⟩ | hmark | ⟨rfl, -⟩ := h.cons_cases
  · rwa [hdepth] at hrest
  · obtain rfl | rfl | rfl := isMark_iff.mp hmark
    all_goals exact absurd hc (by decide)
  · exact absurd hc (by decide)

-- A list of types has no blank and no annotation in front of it.
theorem Listed.head (h : Listed 0 (c :: cs)) : isBlank c = false ∧ c ≠ '@' := by
  obtain ⟨hpos | htype, -⟩ | hmark | ⟨rfl, -⟩ := h.cons_cases
  · exact absurd hpos (by decide)
  · simp only [isTypeMark, Bool.or_eq_true, decide_eq_true_eq, beq_iff_eq] at htype
    obtain (((rfl | rfl) | hword) | rfl) | rfl := htype
    · decide
    · decide
    · exact ⟨isBlank_eq_false_of_isWordChar hword, ne_of_isWordChar hword '@' (by decide)⟩
    · decide
    · decide
  · obtain rfl | rfl | rfl := isMark_iff.mp hmark
    all_goals decide
  · decide

-- There is nothing to drop in front of a type that has been read.
theorem Listed.dropParamModifiers_eq {rest : List Char} (h : Listed 0 (cs ++ rest)) :
    dropParamModifiers cs = cs := by
  have hfinal : afterFinal? cs = none := by
    unfold afterFinal?
    split
    case h_1 d tail =>
      have hword := ((((h.of_word (by decide)).of_word (by decide)).of_word (by decide)).of_word
        (by decide)).of_word (by decide)
      rw [if_neg (by simp [hword.head.left])]
    case h_2 => rfl
  have htrim : trimStart cs = cs := by
    cases cs with
    | nil => rfl
    | cons c cs => exact trimStart_of_head h.head.left
  fun_cases dropParamModifiers cs with
  | case1 hnil => exact htrim ▸ hnil.symm
  | case2 tail hcs =>
    rw [htrim] at hcs
    subst hcs
    exact absurd rfl h.head.right
  | case3 c tail hcs _ rest hrest =>
    rw [htrim] at hcs
    rw [← hcs, hfinal] at hrest
    cases hrest
  | case4 c tail hcs => exact hcs.symm.trans htrim

-- The types of the parameters that a text between parentheses lists.
def readParams (cs : List Char) : List ParamType :=
  ((splitTopLevel 0 cs).filter (!allBlank ·)).map paramOfText

-- Parts that no comma divides are read one by one.
theorem readParams_intercalate {parts : List (List Char)}
    (h : ∀ part ∈ parts, isWhole 0 part = true ∧ allBlank part = false) :
    readParams ([','].intercalate parts) = parts.map paramOfText := by
  by_cases hnil : parts = []
  · rw [hnil]
    rfl
  rw [readParams, splitTopLevel_intercalate hnil fun part hp => (h part hp).left,
    List.filter_eq_self.mpr fun part hp => by simp [(h part hp).right]]

-- The characters of a name that is read as it is written.
def isPlain (c : Char) : Bool := !isBlank c && c != '(' && c != '.'

theorem isPlain_iff : isPlain c = true ↔ isBlank c = false ∧ c ≠ '(' ∧ c ≠ '.' := by
  simp [isPlain, and_assoc]

theorem afterLast_of_forall {p : Char → Bool} (h : ∀ c ∈ cs, p c = false) : afterLast p cs = cs := by
  have hall : cs.reverse.takeWhile (!p ·) = cs.reverse :=
    List.takeWhile_eq_self_iff.mpr (by simpa using h)
  rw [afterLast, hall, List.reverse_reverse]

theorem simpleName_of_isPlain (h : ∀ c ∈ cs, isPlain c = true) : simpleName cs = cs := by
  have hblank : ∀ c ∈ cs, isBlank c = false := fun c hc => (isPlain_iff.mp (h c hc)).left
  have hdot : ∀ c ∈ cs, (c == '.') = false := fun c hc =>
    beq_eq_false_iff_ne.mpr (isPlain_iff.mp (h c hc)).right.right
  rw [simpleName, trim_of_isTight (isTight_of_no_blank hblank), afterLast_of_forall hblank,
    afterLast_of_forall hdot]

theorem ofText_call {name : List Char} (hname : ∀ c ∈ name, isPlain c = true) (cs : List Char) :
    ofText (name ++ '(' :: (cs ++ [')'])) = ⟨String.ofList name, readParams cs⟩ := by
  have htrim : trim (name ++ '(' :: (cs ++ [')'])) = name ++ '(' :: (cs ++ [')']) := by
    have hstart : trimStart (name ++ '(' :: (cs ++ [')'])) = name ++ '(' :: (cs ++ [')']) := by
      cases name with
      | nil => exact trimStart_of_head (by decide)
      | cons c name => exact trimStart_of_head (isPlain_iff.mp (hname c List.mem_cons_self)).left
    have hclose : isBlank ')' = false := by decide
    rw [trim, hstart, trimEnd]
    simp [List.dropWhile_cons_of_neg, hclose]
  have hparen : ∀ c ∈ name, (c != '(') = true := fun c hc =>
    bne_iff_ne.mpr (isPlain_iff.mp (hname c hc)).right.left
  have hparams : paramsText (cs ++ [')']) = cs := by simp [paramsText, beforeLast?]
  rw [ofText, htrim, List.dropWhile_append_of_pos hparen, List.takeWhile_append_of_pos hparen]
  simp [hparams, simpleName_of_isPlain hname, readParams]

-- What a signature is like that has been read from a text without superfluous blanks.
structure Tidy (s : Signature) : Prop where
  name : ∀ c ∈ s.name.toList, isPlain c = true
  params : ∀ p ∈ s.params, p.Tidy

def paramTexts (s : Signature) : List Char := [','].intercalate (s.params.map (·.canonical.toList))

-- A canonical form is read back under its name.
theorem Tidy.ofString_canonicalForm (h : s.Tidy) :
    ofString s.canonicalForm = ⟨s.name, readParams s.paramTexts⟩ := by
  rw [ofString, canonicalForm, toList_render, List.map_map]
  refine (ofText_call h.name _).trans ?_
  rw [String.ofList_toList]
  rfl

theorem tidy_of_isTight {name : List Char} (hname : ∀ c ∈ name, isPlain c = true)
    (hcs : isTight false cs = true) : Tidy ⟨String.ofList name, readParams cs⟩ where
  name := by simpa using hname
  params := by
    intro p hp
    obtain ⟨part, hpart, rfl⟩ := List.mem_map.mp hp
    obtain ⟨worded, htight⟩ := isTight_of_mem_splitTopLevel hcs (List.mem_filter.mp hpart).left
    exact tidy_paramOfText htight

theorem Tidy.listed (h : s.Tidy) : Listed 0 s.paramTexts := listed_intercalate h.params

theorem Tidy.isTight_paramTexts (h : s.Tidy) : isTight false s.paramTexts = true := by
  refine isTight_intercalate ?_
  intro part hpart
  obtain ⟨p, hp, rfl⟩ := List.mem_map.mp hpart
  exact (h.params p hp).isTight_of_writes p.writes_canonical

theorem isPlain_of_isWordChar (h : isWordChar c = true) : isPlain c = true :=
  isPlain_iff.mpr ⟨isBlank_eq_false_of_isWordChar h, ne_of_isWordChar h '(' (by decide),
    ne_of_isWordChar h '.' (by decide)⟩

-- A signature with a plain name and types that close their brackets in turn.
structure Nested (s : Signature) : Prop where
  name : ∀ c ∈ s.name.toList, isPlain c = true
  params : ∀ p ∈ s.params, p.Nested

-- The text of a type is taken as a whole, and then what else is taken behind it.
theorem spanType_append_of_isSpanned (hspanned : isSpanned depth xs = true)
    (hlast : ∀ c, xs.getLast? = some c → isMark c = false) :
    spanType depth (xs ++ ys) = (xs ++ (spanType (angleDepth depth xs) ys).1,
      (spanType (angleDepth depth xs) ys).2) := by
  induction xs generalizing depth with
  | nil => rfl
  | cons c xs ih =>
    have hfirst := (Bool.and_eq_true_iff.mp hspanned).left
    simp only [Bool.or_eq_true, decide_eq_true_eq, Bool.and_eq_true] at hfirst
    rw [List.cons_append, spanType_cons, if_neg, if_pos]
    · have hlast' : ∀ d, xs.getLast? = some d → isMark d = false := by
        intro d hd
        refine hlast d ?_
        rw [List.getLast?_cons, hd]
        rfl
      have hrest : isSpanned (angleDepth depth [c]) xs = true := (Bool.and_eq_true_iff.mp hspanned).right
      rw [ih hrest hlast']
      rfl
    · simp only [Bool.or_eq_true, decide_eq_true_eq]
      exact .inl (hfirst.imp_right And.left)
    · rintro ⟨hdepth, hdots⟩
      have hmarks := isMarks_of_stops hdepth hspanned fun _ _ _ => .inr hdots
      have hne : c :: xs ≠ [] := List.cons_ne_nil c xs
      have hmark := hlast _ (List.getLast?_eq_some_getLast hne)
      rw [hmarks.isMark _ (List.getLast_mem hne)] at hmark
      cases hmark

-- A type that is followed by marks is taken up to them.
theorem spanType_append_eq (hspanned : isSpanned depth xs = true) (hclosed : angleDepth depth xs ≤ 0)
    (hlast : ∀ c, xs.getLast? = some c → isMark c = false)
    (hstops : ∀ d ≤ 0, spanType d ys = ([], ys)) : spanType depth (xs ++ ys) = (xs, ys) := by
  rw [spanType_append_of_isSpanned hspanned hlast, hstops _ hclosed, List.append_nil]

theorem toList_brackets_succ (n : Nat) :
    (brackets (n + 1)).toList = '[' :: ']' :: (brackets n).toList := by
  rw [toList_brackets, toList_brackets]
  rfl

theorem spanType_marks {n : Nat} {tail : List Char} (htail : tail = [] ∨ tail = dots) :
    ∀ d ≤ 0, spanType d ((brackets n).toList ++ tail) = ([], (brackets n).toList ++ tail) := by
  intro d hd
  cases n with
  | zero =>
    rw [brackets_zero, String.toList_empty, List.nil_append]
    obtain rfl | rfl := htail
    · rfl
    · rw [dots, spanType_cons, if_pos ⟨hd, rfl⟩]
  | succ n =>
    have hbracket : isTypeMark '[' = false ∧ isBlank '[' = false := by decide
    rw [toList_brackets_succ, List.cons_append, spanType_cons, if_neg, if_neg]
    · simp [hbracket, Int.not_lt.mpr hd]
    · rintro ⟨-, hdots⟩
      cases hdots

theorem splitDims_of_last (h : ∀ c, cs.getLast? = some c → isWordChar c = true ∨ c = '>') :
    splitDims cs = (cs, 0) := by
  have hback : takeDimsBack cs.reverse = (cs.reverse, 0) := by
    cases hrev : cs.reverse with
    | nil => rw [takeDimsBack]
    | cons c back =>
      have hc : isBlank c = false ∧ c ≠ ']' := by
        obtain hword | rfl := h c (by rw [← List.head?_reverse, hrev]; rfl)
        · exact ⟨isBlank_eq_false_of_isWordChar hword, ne_of_isWordChar hword ']' (by decide)⟩
        · decide
      rw [takeDimsBack, if_neg (by simp [hc.left]), if_neg hc.right]
  rw [splitDims, hback, List.reverse_reverse]

theorem takeDims_marks (n : Nat) {tail : List Char} (htail : tail = [] ∨ tail = dots) :
    takeDims ((brackets n).toList ++ tail) = (n, !tail.isEmpty, []) := by
  induction n with
  | zero =>
    rw [brackets_zero, String.toList_empty, List.nil_append]
    obtain rfl | rfl := htail
    · decide +kernel
    · decide +kernel
  | succ n ih =>
    have hafter : afterBrackets? ((brackets (n + 1)).toList ++ tail) =
        some ((brackets n).toList ++ tail) := by
      have hopen : isBlank '[' = false := by decide
      have hclose : isBlank ']' = false := by decide
      simp [toList_brackets_succ, afterBrackets?, trimStart_of_head hopen,
        trimStart_of_head hclose]
    rw [takeDims]
    split
    case h_1 rest hrest =>
      rw [hafter, Option.some.injEq] at hrest
      rw [← hrest, ih]
    case h_2 hnone =>
      rw [hafter] at hnone
      cases hnone

-- A type that is written canonically is read back as it was.
theorem paramOfText_canonical {p : ParamType} (hp : p.Nested) (htidy : p.Tidy) :
    paramOfText p.canonical.toList = p := by
  have hlisted : Listed 0 (p.canonical.toList ++ []) := by
    have hsingle := listed_intercalate (show ∀ q ∈ [p], q.Tidy by simpa using htidy)
    rwa [List.map_singleton, List.intercalate_singleton, ← List.append_nil p.canonical.toList]
      at hsingle
  obtain ⟨tail, htail, hvariadic, htext⟩ : ∃ tail, (tail = [] ∨ tail = dots) ∧
      (!tail.isEmpty) = p.variadic ∧
        p.canonical.toList = p.base.toList ++ ((brackets p.dims).toList ++ tail) := by
    cases hv : p.variadic with
    | true => exact ⟨dots, .inr rfl, rfl, by simp [ParamType.canonical, hv, dots]⟩
    | false => exact ⟨[], .inl rfl, rfl, by simp [ParamType.canonical, hv]⟩
  have hclosing := closing_of_nested hp
  have hspan : spanType 0 p.canonical.toList =
      (p.base.toList, (brackets p.dims).toList ++ tail) := by
    rw [htext]
    exact spanType_append_eq htidy.spanned (Int.le_of_eq hclosing.closed) hclosing.last
      (spanType_marks htail)
  have hdims : splitDims p.base.toList = (p.base.toList, 0) := by
    refine splitDims_of_last fun c hc => ?_
    obtain ⟨front, heq⟩ := List.getLast?_eq_some_iff.mp hc
    exact last_of_isTypeName (heq ▸ hp.isTypeName)
  have hcount : countDims ([].dropWhile isWordChar) = 0 := by decide +kernel
  rw [paramOfText, hlisted.dropParamModifiers_eq,
    trim_of_isTight (htidy.isTight_of_writes p.writes_canonical), hspan]
  simp only [hdims, takeDims_marks _ htail, hcount, collapseType_of_isTight htidy.tight,
    String.ofList_toList, hvariadic]
  simp

-- A canonical text of types that close their brackets in turn is read back as it was.
theorem readParams_paramTexts {s : Signature} (hs : s.Nested) (htidy : s.Tidy) :
    readParams s.paramTexts = s.params := by
  have hpart : ∀ part ∈ s.params.map (·.canonical.toList),
      isWhole 0 part = true ∧ allBlank part = false := by
    intro part hpart
    obtain ⟨p, hp, rfl⟩ := List.mem_map.mp hpart
    have hwrites := p.writes_canonical
    have hname := (hs.params p hp).isTypeName
    refine ⟨hwrites.isWhole hname, ?_⟩
    have htight := (htidy.params p hp).isTight_of_writes hwrites
    cases hchars : p.canonical.toList with
    | nil => exact absurd hchars (hwrites.toList_ne_nil hname)
    | cons c cs =>
      have hblank : isBlank c = false := by
        cases hc : isBlank c with
        | false => rfl
        | true => simp [hchars, isTight, hc] at htight
      simp [allBlank, hblank]
  rw [paramTexts, readParams_intercalate hpart, List.map_map]
  exact (List.map_congr_left fun p hp =>
    paramOfText_canonical (hs.params p hp) (htidy.params p hp)).trans (List.map_id _)

-- So is a whole signature.
theorem Nested.ofString_canonicalForm (hs : s.Nested) (htidy : s.Tidy) :
    ofString s.canonicalForm = s := by
  rw [htidy.ofString_canonicalForm, readParams_paramTexts hs htidy]

-- A text that names a method by an identifier and the types of its parameters by names that close
-- their brackets in turn.
structure WellNested (text : String) : Prop where
  wellFormed : WellFormed text
  closed : ∀ p ∈ (ofString text).params, openAfter [] p.base.toList = some []

instance (text : String) : Decidable (WellNested text) :=
  decidable_of_iff (WellFormed text ∧
    ∀ p ∈ (ofString text).params, openAfter [] p.base.toList = some [])
    ⟨fun h => ⟨h.left, h.right⟩, fun h => ⟨h.wellFormed, h.closed⟩⟩

theorem WellNested.nested (h : WellNested text) : (ofString text).Nested where
  name c hc := isPlain_of_isWordChar ((isProper_iff.mp h.wellFormed).left.right c hc)
  params p hp := ⟨(isProper_iff.mp h.wellFormed).right p hp, h.closed p hp⟩

theorem exists_paramOfText (hp : p ∈ (ofText cs).params) : ∃ part, p = paramOfText part := by
  rw [ofText] at hp
  split at hp
  · cases hp
  · obtain ⟨part, -, rfl⟩ := List.mem_map.mp hp
    exact ⟨part, rfl⟩

theorem WellNested.tidy (h : WellNested text) : (ofString text).Tidy where
  name := h.nested.name
  params p hp := by
    have hnested := h.nested.params p hp
    obtain ⟨part, rfl⟩ := exists_paramOfText hp
    refine ⟨?_, isSpanned_of_isTypeName inAngles_nil hnested.isTypeName hnested.closed⟩
    rw [base_paramOfText]
    exact isTight_collapseType _

-- Reading what is written canonically changes nothing.
theorem WellNested.ofString_canonicalSignature (h : WellNested text) :
    ofString (canonicalSignature text) = ofString text :=
  h.nested.ofString_canonicalForm h.tidy

end Signature

end ClassSplit
