import ClassSplit.Proofs.Signature.Canonical
import ClassSplit.Proofs.Signature.Lexemes

/-!
Which texts denote the same method. Two signatures that are written out, with blanks, brackets, `...`
and the names of parameters as one likes, match exactly when they have the same name and the same
types in the same order, without their brackets and `...`. Main statements:
`WrittenSignature.ofString_text` and `WrittenSignature.signaturesMatch_text`.
-/

namespace ClassSplit

open Text Signature

namespace Signature

variable {c : Char} {cs xs ys zs : List Char}

structure Blanks where
  chars : List Char
  blank : allBlank chars = true

structure Word where
  chars : List Char
  nonempty : chars ≠ []
  word : ∀ c ∈ chars, isWordChar c = true

-- The name of a type: words with dots between them, and type arguments whose brackets are closed in
-- turn. The word `final` is a modifier and names no type.
structure TypeName where
  chars : List Char
  named : isTypeName 0 false chars = true
  closed : openAfter [] chars = some []
  unmodified : chars.takeWhile isWordChar ≠ "final".toList

-- A pair of brackets.
structure Pair where
  before : Blanks
  inside : Blanks

def Pair.text (p : Pair) : List Char := p.before.chars ++ '[' :: (p.inside.chars ++ [']'])

-- A parameter as it may be written: its type with pairs of brackets and `...` behind it, and a name,
-- which may have brackets behind it as well.
structure WrittenParam where
  lead : Blanks
  type : TypeName
  pairs : List Pair
  ellipsis : Option Blanks
  name : Option (Blanks × Word)
  namePairs : List Pair
  trail : Blanks
  separated : ∀ named, name = some named → named.1.chars = [] → pairs ≠ [] ∨ ellipsis.isSome = true

namespace WrittenParam

-- What is written behind the type.
def behind (p : WrittenParam) : List Char :=
  p.pairs.flatMap Pair.text ++ ((p.ellipsis.map fun bs => bs.chars ++ dots).getD [] ++
    ((p.name.map fun named => named.1.chars ++ named.2.chars).getD [] ++
      p.namePairs.flatMap Pair.text))

def text (p : WrittenParam) : List Char :=
  p.lead.chars ++ (p.type.chars ++ p.behind ++ p.trail.chars)

end WrittenParam

-- A signature as it may be written.
structure WrittenSignature where
  lead : Blanks
  name : Word
  gap : Blanks
  params : List WrittenParam
  -- what stands between the parentheses if there are no parameters
  empty : Blanks
  trail : Blanks

namespace WrittenSignature

def paramsText (s : WrittenSignature) : List Char :=
  if s.params = [] then s.empty.chars else [','].intercalate (s.params.map WrittenParam.text)

def text (s : WrittenSignature) : String :=
  String.ofList (s.lead.chars ++ (s.name.chars ++ s.gap.chars ++ '(' :: (s.paramsText ++ [')']))
    ++ s.trail.chars)

-- The name, and the words and the other characters of each type without brackets and `...` behind
-- it.
def erasure (s : WrittenSignature) : List Char × List (List (List Char)) :=
  (s.name.chars, s.params.map fun p => lexemes p.type.chars)

end WrittenSignature

-- A signature with one parameter, which has a name and brackets behind it.
example : (WrittenSignature.mk ⟨[], rfl⟩ ⟨['m'], by decide, by simp; decide⟩ ⟨[' '], by decide⟩
    [⟨⟨[], rfl⟩, ⟨"List< T >".toList, by decide +kernel, by decide +kernel, by decide +kernel⟩, [],
      some ⟨[' '], by decide⟩, some (⟨[' '], by decide⟩, ⟨['a'], by decide, by simp; decide⟩),
      [⟨⟨[], rfl⟩, ⟨[' '], by decide⟩⟩], ⟨[], rfl⟩, by simp⟩] ⟨[], rfl⟩ ⟨[], rfl⟩).text =
    "m (List< T > ... a[ ])" := by decide +kernel

-- Texts whose last character, if there is one, is not blank.
def EndsSolid (cs : List Char) : Prop := cs.getLast?.all (!isBlank ·) = true

theorem EndsSolid.append (hxs : EndsSolid xs) (hys : EndsSolid ys) : EndsSolid (xs ++ ys) := by
  rw [EndsSolid, List.getLast?_append]
  cases hlast : ys.getLast? with
  | none => exact hxs
  | some c =>
    rw [EndsSolid, hlast] at hys
    exact hys

theorem endsSolid_concat (h : isBlank c = false) : EndsSolid (cs ++ [c]) := by
  simp [EndsSolid, h]

theorem endsSolid_of_last (h : ∀ c, cs.getLast? = some c → isWordChar c = true ∨ c = '>') :
    EndsSolid cs := by
  rw [EndsSolid]
  cases hlast : cs.getLast? with
  | none => rfl
  | some c =>
    obtain hword | rfl := h c hlast
    · simp [isBlank_eq_false_of_isWordChar hword]
    · decide

theorem endsSolid_flatMap {α : Type} {f : α → List Char} (h : ∀ x, EndsSolid (f x)) (as : List α) :
    EndsSolid (as.flatMap f) := by
  induction as with
  | nil => rfl
  | cons a as ih => exact (h a).append ih

theorem trimEnd_append_blanks (hxs : EndsSolid xs) (bs : Blanks) : trimEnd (xs ++ bs.chars) = xs := by
  have hblank : ∀ c ∈ bs.chars.reverse, isBlank c = true := by
    simpa [allBlank] using bs.blank
  rw [trimEnd, List.reverse_append, List.dropWhile_append_of_pos hblank]
  obtain rfl | ⟨front, c, rfl⟩ := List.eq_nil_or_concat xs
  · rfl
  · have hc : isBlank c = false := by simpa [EndsSolid] using hxs
    simp [hc]

theorem trimStart_blanks_append (bs : Blanks) (cs : List Char) :
    trimStart (bs.chars ++ cs) = trimStart cs :=
  List.dropWhile_append_of_pos (by simpa [allBlank] using bs.blank)

theorem isWhole_blanks (bs : Blanks) : isWhole 0 bs.chars = true :=
  isWhole_of_blanks (by simpa [allBlank] using bs.blank)

theorem isWhole_flatMap {α : Type} {f : α → List Char} (h : ∀ x, isWhole 0 (f x) = true)
    (as : List α) : isWhole 0 (as.flatMap f) = true := by
  induction as with
  | nil => rfl
  | cons a as ih => exact isWhole_append (h a) ih

theorem isWhole_of_word (h : ∀ c ∈ cs, isWordChar c = true) : isWhole 0 cs = true := by
  induction cs with
  | nil => rfl
  | cons c cs ih =>
    have hc := h c List.mem_cons_self
    simpa [isWhole, opens_of_isWordChar hc, closes_of_isWordChar hc,
      ne_of_isWordChar hc ',' (by decide)] using ih fun d hd => h d (List.mem_cons_of_mem _ hd)

-- Texts that begin with a word.
def StartsWord (cs : List Char) : Prop := ∃ c rest, cs = c :: rest ∧ isWordChar c = true

theorem StartsWord.append (h : StartsWord xs) (ys : List Char) : StartsWord (xs ++ ys) := by
  obtain ⟨c, rest, rfl, hc⟩ := h
  exact ⟨c, rest ++ ys, rfl, hc⟩

theorem StartsWord.trimStart_eq (h : StartsWord cs) : trimStart cs = cs := by
  obtain ⟨c, rest, rfl, hc⟩ := h
  exact trimStart_of_head (isBlank_eq_false_of_isWordChar hc)

theorem trim_between (lead trail : Blanks) (hstart : StartsWord cs) (hend : EndsSolid cs) :
    trim (lead.chars ++ cs ++ trail.chars) = cs := by
  rw [trim, List.append_assoc, trimStart_blanks_append, (hstart.append _).trimStart_eq,
    trimEnd_append_blanks hend]

theorem trim_append_blanks (trail : Blanks) (hstart : StartsWord cs) (hend : EndsSolid cs) :
    trim (cs ++ trail.chars) = cs :=
  trim_between ⟨[], rfl⟩ trail hstart hend

theorem trim_eq_self (hstart : StartsWord cs) (hend : EndsSolid cs) : trim cs = cs := by
  simpa using trim_append_blanks ⟨[], rfl⟩ hstart hend

namespace Word

variable (w : Word)

theorem startsWord : StartsWord w.chars := by
  obtain ⟨c, rest, heq⟩ := List.exists_cons_of_ne_nil w.nonempty
  exact ⟨c, rest, heq, w.word c (heq ▸ List.mem_cons_self)⟩

theorem endsSolid : EndsSolid w.chars := by
  rw [EndsSolid]
  cases hlast : w.chars.getLast? with
  | none => rfl
  | some c =>
    have hc := isBlank_eq_false_of_isWordChar (w.word c (List.mem_of_getLast? hlast))
    simp [hc]

end Word

namespace Pair

theorem isWhole_text (p : Pair) : isWhole 0 p.text = true :=
  isWhole_append (isWhole_blanks p.before)
    (IsDims.pair (by simpa [allBlank] using p.inside.blank)).whole

theorem endsSolid_text (p : Pair) : EndsSolid p.text := by
  rw [text, ← List.cons_append, ← List.append_assoc]
  exact endsSolid_concat (by decide)

end Pair

namespace TypeName

variable (t : TypeName)

theorem nested_ofList : (ParamType.mk (String.ofList t.chars) 0 false).Nested := by
  refine ⟨?_, ?_⟩
  · simpa using t.named
  · simpa using t.closed

theorem isSpanned : isSpanned 0 t.chars = true := by
  have h := isSpanned_of_isTypeName inAngles_nil t.named t.closed
  simpa using h

theorem closing : Closing 0 t.chars := by
  simpa using closing_of_nested t.nested_ofList

theorem startsWord : StartsWord t.chars := by
  have hnamed := t.named
  cases hchars : t.chars with
  | nil => rw [hchars] at hnamed; cases hnamed
  | cons c cs =>
    rw [hchars, isTypeName, if_pos rfl] at hnamed
    refine ⟨c, cs, rfl, ?_⟩
    split_ifs at hnamed
    · cases hnamed
    · cases hnamed
    · exact (Bool.and_eq_true_iff.mp hnamed).left

theorem last (h : t.chars.getLast? = some c) : isWordChar c = true ∨ c = '>' := by
  obtain ⟨front, heq⟩ := List.getLast?_eq_some_iff.mp h
  exact last_of_isTypeName (heq ▸ t.named)

theorem endsSolid : EndsSolid t.chars := endsSolid_of_last fun _ => t.last

end TypeName

-- Where the reader of types stops at once, it takes no more than blanks that stand in front.
theorem allBlank_spanType (bs : Blanks)
    (hstops : spanType 0 zs = ([], zs)) : allBlank (spanType 0 (bs.chars ++ zs)).1 = true := by
  obtain ⟨bs, hbs⟩ := bs
  induction bs with
  | nil => simp [hstops, allBlank]
  | cons c bs ih =>
    obtain ⟨hc, hbs⟩ : isBlank c = true ∧ allBlank bs = true := by simpa [allBlank] using hbs
    have hdepth : angleDepth 0 [c] = 0 := by
      have hopen : c ≠ '<' := by rintro rfl; exact absurd hc (by decide)
      have hclose : c ≠ '>' := by rintro rfl; exact absurd hc (by decide)
      simp [angleDepth, hopen, hclose]
    rw [List.cons_append, spanType_cons]
    split_ifs
    · rfl
    · rw [hdepth]
      simpa [allBlank, hc] using ih hbs
    · rfl

-- Blanks in front of a word end a type.
theorem spanType_blank_word (bs : Blanks) (hne : bs.chars ≠ []) (hc : isWordChar c = true) :
    spanType 0 (bs.chars ++ c :: cs) = ([], bs.chars ++ c :: cs) := by
  obtain ⟨bs, hbs⟩ := bs
  obtain ⟨b, bs, rfl⟩ := List.exists_cons_of_ne_nil hne
  have hb : isBlank b = true := (Bool.and_eq_true_iff.mp hbs).left
  have hmark := ne_of_isBlank hb
  have htrim : trimStart (b :: bs ++ c :: cs) = c :: cs := by
    rw [trimStart_blanks_append ⟨b :: bs, hbs⟩, trimStart_of_head (isBlank_eq_false_of_isWordChar hc)]
  have hstop : continuesType (c :: cs) = false := by
    have hbracket := ne_of_isWordChar hc '[' (by decide)
    have hangle := ne_of_isWordChar hc '<' (by decide)
    have hdot := ne_of_isWordChar hc '.' (by decide)
    simp [continuesType, hbracket, hangle, dots, List.isPrefixOf_cons_cons, Ne.symm hdot]
  have hword := isWordChar_eq_false_of_isBlank hb
  rw [List.cons_append] at htrim ⊢
  rw [spanType_cons, if_neg, if_neg]
  · simp [htrim, hstop, isTypeMark, hword, hmark '<' (by decide), hmark '>' (by decide),
      hmark '.' (by decide), hmark '?' (by decide)]
  · simp [dots, List.isPrefixOf_cons_cons, Ne.symm (hmark '.' (by decide))]

theorem head_blanks {p : Char → Bool} (hp : ∀ c, isBlank c = true → p c = false) (bs : Blanks)
    (h : bs.chars = [] → cs.head?.all (!p ·) = true) :
    (bs.chars ++ cs).head?.all (!p ·) = true := by
  obtain ⟨bs, hbs⟩ := bs
  cases bs with
  | nil => exact h rfl
  | cons b bs => simp [hp b (Bool.and_eq_true_iff.mp hbs).left]

theorem head_blanks_append (bs : Blanks)
    (h : bs.chars = [] → cs.head?.all (!isWordChar ·) = true) :
    (bs.chars ++ cs).head?.all (!isWordChar ·) = true :=
  head_blanks (fun _ => isWordChar_eq_false_of_isBlank) bs h

theorem takeWhile_append_of_head (h : ys.head?.all (!isWordChar ·) = true) :
    (xs ++ ys).takeWhile isWordChar = xs.takeWhile isWordChar := by
  have hys : ys.takeWhile isWordChar = [] := by
    cases ys with
    | nil => rfl
    | cons c ys => exact List.takeWhile_cons_of_neg (by simpa using h)
  rw [List.takeWhile_append, hys, List.append_nil]
  split_ifs with hlength
  · exact ((List.takeWhile_prefix _).eq_of_length hlength).symm
  · rfl

-- Only a text whose first word is `final` has that modifier in front.
theorem afterFinal?_eq_none (h : cs.takeWhile isWordChar ≠ "final".toList) :
    afterFinal? cs = none := by
  unfold afterFinal?
  split
  case h_1 c rest =>
    split_ifs with hc
    · refine absurd ?_ h
      have hword := isWordChar_eq_false_of_isBlank hc
      have hfinal : ∀ d ∈ "final".toList, isWordChar d = true :=
        List.all_eq_true.mp (by decide +kernel)
      have happend : ("final".toList ++ c :: rest).takeWhile isWordChar =
          "final".toList ++ (c :: rest).takeWhile isWordChar :=
        List.takeWhile_append_of_pos hfinal
      rw [List.takeWhile_cons_of_neg (by simp [hword]), List.append_nil] at happend
      exact happend
    · rfl
  case h_2 => rfl

theorem splitDims_append_blanks (bs : Blanks) (cs : List Char) :
    splitDims (cs ++ bs.chars) = splitDims cs := by
  have hback (bs : List Char) (h : allBlank bs = true) (back : List Char) :
      takeDimsBack (bs ++ back) = takeDimsBack back := by
    induction bs with
    | nil => rfl
    | cons b bs ih =>
      obtain ⟨hb, hbs⟩ := Bool.and_eq_true_iff.mp h
      rw [List.cons_append, takeDimsBack, if_pos hb, ih hbs]
  have hreverse : allBlank bs.chars.reverse = true := by simpa [allBlank] using bs.blank
  rw [splitDims, splitDims, List.reverse_append, hback _ hreverse]

namespace WrittenParam

variable (p : WrittenParam)

theorem isWhole_behind : isWhole 0 p.behind = true := by
  refine isWhole_append (isWhole_flatMap Pair.isWhole_text _) (isWhole_append ?_
    (isWhole_append ?_ (isWhole_flatMap Pair.isWhole_text _)))
  · cases p.ellipsis with
    | none => rfl
    | some bs => exact isWhole_append (isWhole_blanks bs) rfl
  · cases p.name with
    | none => rfl
    | some named => exact isWhole_append (isWhole_blanks named.1) (isWhole_of_word named.2.word)

theorem endsSolid_behind : EndsSolid p.behind := by
  refine (endsSolid_flatMap Pair.endsSolid_text _).append (EndsSolid.append ?_
    (EndsSolid.append ?_ (endsSolid_flatMap Pair.endsSolid_text _)))
  · cases p.ellipsis with
    | none => rfl
    | some bs =>
      have hdot : isBlank '.' = false := by decide
      have hdots : EndsSolid ((bs.chars ++ ['.', '.']) ++ ['.']) := endsSolid_concat hdot
      rw [Option.map_some, Option.getD_some]
      simpa [dots] using hdots
  · cases hname : p.name with
    | none => rfl
    | some named =>
      obtain ⟨bs, word⟩ := named
      obtain ⟨front, c, heq⟩ := (List.eq_nil_or_concat word.chars).resolve_left word.nonempty
      rw [Option.map_some, Option.getD_some, heq, List.concat_eq_append, ← List.append_assoc]
      exact endsSolid_concat (isBlank_eq_false_of_isWordChar (word.word c (by simp [heq])))

theorem isWhole_text : isWhole 0 p.text = true :=
  isWhole_append (isWhole_blanks p.lead) (isWhole_append
    (isWhole_append (isWhole_of_isTypeName p.type.named) p.isWhole_behind) (isWhole_blanks p.trail))

-- What stands behind a type: nothing, or brackets, `...` or a name after any blanks.
theorem behind_cases :
    p.behind = [] ∨ (∃ (bs : Blanks) (rest : List Char), p.behind = bs.chars ++ '[' :: rest) ∨
      (∃ (bs : Blanks) (rest : List Char), p.behind = bs.chars ++ (dots ++ rest)) ∨
        ∃ (bs : Blanks) (c : Char) (rest : List Char), bs.chars ≠ [] ∧ isWordChar c = true ∧
          p.behind = bs.chars ++ c :: rest := by
  have hpair (pair : Pair) (pairs : List Pair) (rest : List Char) : ∃ (bs : Blanks) (rest' : List Char),
      (pair :: pairs).flatMap Pair.text ++ rest = bs.chars ++ '[' :: rest' :=
    ⟨pair.before, pair.inside.chars ++ [']'] ++ pairs.flatMap Pair.text ++ rest, by simp [Pair.text]⟩
  have hseparated := p.separated
  rw [behind]
  cases hpairs : p.pairs with
  | cons pair pairs => exact .inr (.inl (hpair pair pairs _))
  | nil =>
    rw [List.flatMap_nil, List.nil_append]
    cases hdots : p.ellipsis with
    | some bs => exact .inr (.inr (.inl ⟨bs, _, List.append_assoc _ _ _⟩))
    | none =>
      rw [Option.map_none, Option.getD_none, List.nil_append]
      cases hname : p.name with
      | some named =>
        obtain ⟨bs, word⟩ := named
        obtain ⟨c, rest, heq⟩ := List.exists_cons_of_ne_nil word.nonempty
        refine .inr (.inr (.inr ⟨bs, c, rest ++ p.namePairs.flatMap Pair.text, ?_,
          word.word c (heq ▸ List.mem_cons_self), by simp [heq]⟩))
        intro hnil
        simpa [hpairs, hdots] using hseparated _ hname hnil
      | none =>
        rw [Option.map_none, Option.getD_none, List.nil_append]
        cases p.namePairs with
        | nil => exact .inl rfl
        | cons pair pairs =>
          refine .inr (.inl ?_)
          simpa using hpair pair pairs []

-- The reader of types takes a type and no more than blanks behind it.
theorem allBlank_spanType_behind : allBlank (spanType 0 p.behind).1 = true := by
  obtain hnil | ⟨bs, rest, heq⟩ | ⟨bs, rest, heq⟩ | ⟨bs, c, rest, hne, hc, heq⟩ := p.behind_cases
  · rw [hnil]
    rfl
  · rw [heq]
    refine allBlank_spanType bs ?_
    rw [spanType_cons, if_neg (by simp [dots]), if_neg]
    have hbracket : isTypeMark '[' = false ∧ isBlank '[' = false := by decide
    simp [hbracket]
  · rw [heq]
    refine allBlank_spanType bs ?_
    rw [dots, List.cons_append, spanType_cons,
      if_pos ⟨Int.le_refl 0, by simp [dots]⟩]
  · rw [heq, spanType_blank_word bs hne hc]
    rfl

theorem head_behind : (p.behind ++ p.trail.chars).head?.all (!isWordChar ·) = true := by
  have hbracket : isWordChar '[' = false := by decide
  have hdot : isWordChar '.' = false := by decide
  obtain hnil | ⟨bs, rest, heq⟩ | ⟨bs, rest, heq⟩ | ⟨bs, c, rest, hne, -, heq⟩ := p.behind_cases
  · rw [hnil, List.nil_append, ← List.append_nil p.trail.chars]
    exact head_blanks_append p.trail fun _ => rfl
  · rw [heq, List.append_assoc]
    exact head_blanks_append bs fun _ => by simp [hbracket]
  · rw [heq, List.append_assoc]
    exact head_blanks_append bs fun _ => by simp [dots, hdot]
  · rw [heq, List.append_assoc]
    exact head_blanks_append bs fun hnil => absurd hnil hne

theorem dropParamModifiers_text :
    dropParamModifiers p.text = p.type.chars ++ p.behind ++ p.trail.chars := by
  have htrim : trimStart p.text = p.type.chars ++ p.behind ++ p.trail.chars := by
    rw [text, trimStart_blanks_append, List.append_assoc, (p.type.startsWord.append _).trimStart_eq]
  obtain ⟨c, cs, heq, hc⟩ := p.type.startsWord
  have hfinal : afterFinal? (p.type.chars ++ p.behind ++ p.trail.chars) = none := by
    refine afterFinal?_eq_none ?_
    rw [List.append_assoc, takeWhile_append_of_head p.head_behind]
    exact p.type.unmodified
  fun_cases dropParamModifiers p.text with
  | case1 hnil =>
    rw [htrim, heq] at hnil
    cases hnil
  | case2 rest hcs =>
    rw [htrim, heq] at hcs
    exact absurd hc (by rw [(List.cons.inj hcs).left]; decide)
  | case3 d rest hcs _ rest' hrest =>
    rw [← hcs, htrim, hfinal] at hrest
    cases hrest
  | case4 d rest hcs => rw [← hcs, htrim]

-- A parameter is read as one of the type that it is written with.
theorem base_paramOfText_text :
    (paramOfText p.text).base.toList = collapseBlanks none false p.type.chars := by
  have htrim : trim (p.type.chars ++ p.behind ++ p.trail.chars) = p.type.chars ++ p.behind :=
    trim_append_blanks p.trail (p.type.startsWord.append _) (p.type.endsSolid.append p.endsSolid_behind)
  have hspan : (spanType 0 (p.type.chars ++ p.behind)).1 =
      p.type.chars ++ (spanType 0 p.behind).1 := by
    rw [spanType_append_of_isSpanned p.type.isSpanned p.type.closing.last, p.type.closing.closed]
  have hdims : (splitDims (p.type.chars ++ (spanType 0 p.behind).1)).1 = p.type.chars := by
    rw [splitDims_append_blanks ⟨_, p.allBlank_spanType_behind⟩,
      splitDims_of_last fun _ => p.type.last]
  rw [base_paramOfText, p.dropParamModifiers_text, htrim, baseOf, hspan, hdims, collapseType,
    trim_eq_self p.type.startsWord p.type.endsSolid]

theorem allBlank_text : allBlank p.text = false := by
  obtain ⟨c, cs, heq, hc⟩ := p.type.startsWord
  simp [text, heq, allBlank, isBlank_eq_false_of_isWordChar hc]

end WrittenParam

-- The name of a type is still one without its superfluous blanks.
theorem isTypeName_collapseBlanks {depth : Nat} {complete pending : Bool} {last : Option Char}
    (h : isTypeName depth complete cs = true) (hpending : depth = 0 → pending = false) :
    isTypeName depth complete (collapseBlanks last pending cs) = true := by
  induction cs generalizing depth complete pending last with
  | nil => exact h
  | cons c cs ih =>
    rw [collapseBlanks]
    by_cases hc : isBlank c = true
    case pos =>
      have hne := ne_of_isBlank hc
      have hword := isWordChar_eq_false_of_isBlank hc
      rw [isTypeName] at h
      rw [if_pos hc]
      refine ih ?_ ?_
      all_goals
        simp_all [opens, closes, hne '<' (by decide), hne '(' (by decide), hne '[' (by decide),
          hne '>' (by decide), hne ')' (by decide), hne ']' (by decide), hne '.' (by decide)]
    case neg =>
      have hrest {depth' : Nat} {complete' : Bool} (h : isTypeName depth' complete' cs = true) :
          isTypeName depth' complete' (collapseBlanks (some c) false cs) = true := ih h fun _ => rfl
      have hcons : isTypeName depth complete (c :: collapseBlanks (some c) false cs) = true := by
        rw [isTypeName] at h ⊢
        split_ifs at h ⊢
        · exact Bool.and_eq_true_iff.mpr ((Bool.and_eq_true_iff.mp h).imp_right hrest)
        · exact Bool.and_eq_true_iff.mpr ((Bool.and_eq_true_iff.mp h).imp_right hrest)
        · exact Bool.and_eq_true_iff.mpr ((Bool.and_eq_true_iff.mp h).imp_right hrest)
        · exact hrest h
        · exact Bool.and_eq_true_iff.mpr ((Bool.and_eq_true_iff.mp h).imp_right hrest)
        · exact hrest h
      rw [if_neg hc]
      dsimp only
      split_ifs with hspaced
      · have hdepth : depth ≠ 0 := by
          intro hdepth
          rw [hpending hdepth] at hspaced
          cases hspaced
        rw [List.cons_append, List.singleton_append, isTypeName, if_neg hdepth]
        exact hcons
      · exact hcons

-- The text of a signature with blanks around its parts.
theorem ofText_between (lead gap trail : Blanks) (name : Word) (inner : List Char) :
    ofText (lead.chars ++ (name.chars ++ gap.chars ++ '(' :: (inner ++ [')'])) ++ trail.chars) =
      ⟨String.ofList name.chars, readParams inner⟩ := by
  have htrim : trim (lead.chars ++ (name.chars ++ gap.chars ++ '(' :: (inner ++ [')'])) ++
      trail.chars) = name.chars ++ gap.chars ++ '(' :: (inner ++ [')']) := by
    refine trim_between _ _ ((name.startsWord.append _).append _) ?_
    rw [← List.cons_append, ← List.append_assoc]
    exact endsSolid_concat (by decide)
  have hparen : ∀ c ∈ name.chars ++ gap.chars, (c != '(') = true := by
    intro c hc
    refine bne_iff_ne.mpr ?_
    obtain hc | hc := List.mem_append.mp hc
    · exact ne_of_isWordChar (name.word c hc) '(' (by decide)
    · rintro rfl
      exact absurd (List.all_eq_true.mp gap.blank _ hc) (by decide)
  have hsimple : simpleName (name.chars ++ gap.chars) = name.chars := by
    have hplain := simpleName_of_isPlain fun c hc => isPlain_of_isWordChar (name.word c hc)
    rw [simpleName, trim_eq_self name.startsWord name.endsSolid] at hplain
    rw [simpleName, trim_append_blanks gap name.startsWord name.endsSolid, hplain]
  have hparams : paramsText (inner ++ [')']) = inner := by simp [paramsText, beforeLast?]
  have hname : (name.chars ++ gap.chars ++ '(' :: (inner ++ [')'])).takeWhile (· != '(') =
      name.chars ++ gap.chars := by
    rw [List.takeWhile_append_of_pos hparen]
    simp
  have hrest : (name.chars ++ gap.chars ++ '(' :: (inner ++ [')'])).dropWhile (· != '(') =
      '(' :: (inner ++ [')']) := by
    rw [List.dropWhile_append_of_pos hparen]
    simp
  rw [ofText, htrim, hname, hrest]
  simp only [hparams, hsimple]
  rfl

theorem readParams_blanks (bs : Blanks) : readParams bs.chars = [] := by
  have hsplit : splitTopLevel 0 ([','].intercalate [bs.chars]) = [bs.chars] :=
    splitTopLevel_intercalate (List.cons_ne_nil _ _) (by simpa using isWhole_blanks bs)
  rw [List.intercalate_singleton] at hsplit
  rw [readParams, hsplit]
  simp [bs.blank]

namespace WrittenSignature

variable (s : WrittenSignature)

theorem readParams_paramsText : readParams s.paramsText = s.params.map fun p => paramOfText p.text := by
  rw [paramsText]
  split_ifs with hnil
  · rw [readParams_blanks, hnil, List.map_nil]
  · rw [readParams_intercalate, List.map_map]
    · rfl
    · simpa using fun p _ => And.intro p.isWhole_text p.allBlank_text

theorem ofString_text :
    ofString s.text = ⟨String.ofList s.name.chars, s.params.map fun p => paramOfText p.text⟩ := by
  rw [ofString, text, String.toList_ofList, ofText_between, s.readParams_paramsText]

theorem isProper_ofString_text : (ofString s.text).isProper = true := by
  rw [ofString_text, isProper_iff]
  refine ⟨⟨by simpa using s.name.nonempty, by simpa using s.name.word⟩, ?_⟩
  intro q hq
  obtain ⟨p, -, rfl⟩ := List.mem_map.mp hq
  rw [p.base_paramOfText_text]
  exact isTypeName_collapseBlanks p.type.named fun _ => rfl

-- The name and the types that are read from two texts are the same if and only if they are the same
-- as they are written, up to blanks.
theorem erasure_ofString_text_eq_iff (s t : WrittenSignature) :
    (ofString s.text).erasure = (ofString t.text).erasure ↔ s.erasure = t.erasure := by
  have hbase (p : WrittenParam) :
      (paramOfText p.text).base = String.ofList (collapseBlanks none false p.type.chars) := by
    rw [← String.toList_inj, p.base_paramOfText_text, String.toList_ofList]
  rw [ofString_text, ofString_text, Signature.erasure, Signature.erasure, erasure, erasure,
    Prod.mk.injEq, Prod.mk.injEq, String.ofList_inj, List.map_map, List.map_map]
  refine and_congr_right fun _ => ?_
  simp only [← List.forall₂_eq_eq_eq, List.forall₂_map_left_iff, List.forall₂_map_right_iff,
    Function.comp_apply, hbase, String.ofList_inj, collapseBlanks_eq_iff]

theorem signaturesMatch_text_iff (s t : WrittenSignature) :
    signaturesMatch s.text t.text = true ↔ s.erasure = t.erasure := by
  rw [signaturesMatch, agrees_iff s.isProper_ofString_text t.isProper_ofString_text,
    erasure_ofString_text_eq_iff]

end WrittenSignature

section Expansion

variable {s t : Signature}

-- Whether two signatures agree when no spelling is left out.
def agreesInFull (s t : Signature) : Bool :=
  s.canonicalForm == t.canonicalForm || t.allForms.toList.any (s.allForms.contains ·)

theorem agreesInFull_iff (hs : s.isProper = true) (ht : t.isProper = true) :
    s.agreesInFull t = true ↔ s.erasure = t.erasure := by
  have hexists : s.agreesInFull t = true ↔
      s.canonicalForm = t.canonicalForm ∨ ∃ f, f ∈ s.allForms ∧ f ∈ t.allForms := by
    simp [agreesInFull, NameSet.contains, Membership.mem, and_comm]
  rw [hexists]
  constructor
  case mp =>
    rintro (hcanonical | ⟨f, hsf, htf⟩)
    · exact erasure_eq_of_canonicalForm_eq hs ht hcanonical
    · exact erasure_eq_of_spells hs ht (spells_of_mem_allForms hsf) (spells_of_mem_allForms htf)
  case mpr =>
    intro h
    refine .inr ⟨s.bareForm, s.bareForm_mem_allForms, ?_⟩
    rw [bareForm_congr h]
    exact t.bareForm_mem_allForms

end Expansion

-- Two written signatures match if and only if they have the same name and the same types up to
-- blanks, brackets and `...`, whatever the number of their array parameters. Matching is therefore
-- an equivalence, and it is the same whether all spellings are formed or not.
theorem WrittenSignature.signaturesMatch_text :
    (∀ s t : WrittenSignature, signaturesMatch s.text t.text = true ↔ s.erasure = t.erasure) ∧
      Equivalence (fun s t : WrittenSignature => signaturesMatch s.text t.text = true) ∧
        ∀ s t : WrittenSignature,
          signaturesMatch s.text t.text = (ofString s.text).agreesInFull (ofString t.text) := by
  refine ⟨signaturesMatch_text_iff, ?_, ?_⟩
  · simp only [signaturesMatch_text_iff]
    exact ⟨fun _ => rfl, Eq.symm, Eq.trans⟩
  · intro s t
    rw [Bool.eq_iff_iff, signaturesMatch_text_iff,
      agreesInFull_iff s.isProper_ofString_text t.isProper_ofString_text,
      erasure_ofString_text_eq_iff]

-- More array parameters than are expanded on one side, and fewer on the other.
example : signaturesMatch "f(int[] a, int[], int[], int[], int[], int[], int[], int[], int[])"
    "f(int, int, int, int, int, int, int, int, int ... z)" = true := by decide +kernel

end Signature

end ClassSplit
