import ClassSplit.Proofs.Signature.Modifiers

/-!
Formatting of signatures. A signature may be written with modifiers, with or without the names of its
parameters, with brackets behind the types or the names, and with any blanks; what is read of it are
its name and its types. Main statements: `WrittenParam.paramOfText_of_spans`, for a parameter whose
type is taken as a whole, and `SignatureText.canonicalSignature_text`.
-/

namespace ClassSplit.Signature

open Text

variable {cs xs ys rest : List Char}

section Behind

theorem takeDims_of_brackets (h : afterBrackets? cs = some rest) :
    takeDims cs = ((takeDims rest).1 + 1, (takeDims rest).2) := by
  rw [takeDims]
  split
  case h_1 found hfound =>
    obtain rfl : rest = found := Option.some.inj (h.symm.trans hfound)
    rfl
  case h_2 hnone =>
    rw [h] at hnone
    cases hnone

theorem takeDims_of_dots (hnone : afterBrackets? cs = none) (h : afterDots? cs = some rest) :
    takeDims cs = ((takeDims rest).1, true, (takeDims rest).2.2) := by
  rw [takeDims]
  split
  case h_1 found hfound =>
    rw [hnone] at hfound
    cases hfound
  case h_2 =>
    split
    case h_1 found hfound =>
      obtain rfl : rest = found := Option.some.inj (h.symm.trans hfound)
      rfl
    case h_2 hnone' =>
      rw [h] at hnone'
      cases hnone'

theorem takeDims_of_none (hnone : afterBrackets? cs = none) (hnone' : afterDots? cs = none) :
    takeDims cs = (0, false, trimStart cs) := by
  rw [takeDims]
  split
  case h_1 found hfound =>
    rw [hnone] at hfound
    cases hfound
  case h_2 =>
    split
    case h_1 found hfound =>
      rw [hnone'] at hfound
      cases hfound
    case h_2 => rfl

-- Only what stands behind the blanks counts.
theorem takeDims_congr (h : trimStart xs = trimStart ys) : takeDims xs = takeDims ys := by
  have hbrackets : afterBrackets? xs = afterBrackets? ys := by rw [afterBrackets?, afterBrackets?, h]
  have hdots : afterDots? xs = afterDots? ys := by rw [afterDots?, afterDots?, h]
  cases hafter : afterBrackets? ys with
  | some rest => rw [takeDims_of_brackets (hbrackets.trans hafter), takeDims_of_brackets hafter]
  | none =>
    cases hafter' : afterDots? ys with
    | some rest =>
      rw [takeDims_of_dots (hbrackets.trans hafter) (hdots.trans hafter'),
        takeDims_of_dots hafter hafter']
    | none =>
      rw [takeDims_of_none (hbrackets.trans hafter) (hdots.trans hafter'),
        takeDims_of_none hafter hafter', h]

theorem afterBrackets?_pair (p : Pair) (rest : List Char) :
    afterBrackets? (p.text ++ rest) = some rest := by
  have hopen : isBlank '[' = false := by decide
  have hclose : isBlank ']' = false := by decide
  rw [afterBrackets?, Pair.text, List.append_assoc, trimStart_blanks_append, List.cons_append,
    trimStart_of_head hopen]
  simp only
  rw [List.append_assoc, trimStart_blanks_append, List.singleton_append, trimStart_of_head hclose]
  rfl

theorem countDims_pairs (ps : List Pair) : countDims (ps.flatMap Pair.text) = ps.length := by
  induction ps with
  | nil => decide +kernel
  | cons p ps ih =>
    rw [List.flatMap_cons, countDims]
    split
    case h_1 found hfound =>
      rw [afterBrackets?_pair] at hfound
      obtain rfl := Option.some.inj hfound
      rw [ih, List.length_cons]
    case h_2 hnone =>
      rw [afterBrackets?_pair] at hnone
      cases hnone

theorem takeDims_pairs (ps : List Pair) (rest : List Char) :
    takeDims (ps.flatMap Pair.text ++ rest) = ((takeDims rest).1 + ps.length, (takeDims rest).2) := by
  induction ps with
  | nil => rfl
  | cons p ps ih =>
    rw [List.flatMap_cons, List.append_assoc, takeDims_of_brackets (afterBrackets?_pair p _), ih,
      List.length_cons, Nat.add_assoc]

theorem takeDims_dots (bs : Blanks) (rest : List Char) :
    takeDims (bs.chars ++ dots ++ rest) = ((takeDims rest).1, true, (takeDims rest).2.2) := by
  have hdot : isBlank '.' = false := by decide
  have htrim : trimStart (bs.chars ++ dots ++ rest) = '.' :: '.' :: '.' :: rest := by
    rw [List.append_assoc, trimStart_blanks_append]
    exact trimStart_of_head hdot
  refine takeDims_of_dots ?_ ?_
  · rw [afterBrackets?, htrim]
    rfl
  · rw [afterDots?, htrim]
    rfl

-- A name ends the brackets and dots.
theorem takeDims_name (bs : Blanks) (w : Word) (rest : List Char) :
    takeDims (bs.chars ++ w.chars ++ rest) = (0, false, w.chars ++ rest) := by
  have htrim : trimStart (bs.chars ++ w.chars ++ rest) = w.chars ++ rest := by
    rw [List.append_assoc, trimStart_blanks_append, (w.startsWord.append _).trimStart_eq]
  obtain ⟨c, cs, heq, hc⟩ := w.startsWord
  rw [takeDims_of_none, htrim]
  · rw [afterBrackets?, htrim, heq]
    have hbracket := ne_of_isWordChar hc '[' (by decide)
    split
    case h_1 h => exact absurd (List.cons.inj h).left hbracket
    case h_2 => rfl
  · rw [afterDots?, htrim, heq]
    have hdot := ne_of_isWordChar hc '.' (by decide)
    split
    case h_1 h => exact absurd (List.cons.inj h).left hdot
    case h_2 => rfl

theorem head_pairs (ps : List Pair) :
    (ps.flatMap Pair.text).head?.all (!isWordChar ·) = true := by
  have hbracket : isWordChar '[' = false := by decide
  cases ps with
  | nil => rfl
  | cons p ps =>
    rw [List.flatMap_cons, Pair.text, List.append_assoc]
    exact head_blanks_append p.before fun _ => by simp [hbracket]

-- Behind the brackets and dots of a type there may be a name with brackets of its own.
theorem takeDims_nameAndPairs (name : Option (Blanks × Word)) (ps : List Pair) :
    let found := takeDims ((name.map fun named => named.1.chars ++ named.2.chars).getD [] ++
      ps.flatMap Pair.text)
    found.1 + countDims (found.2.2.dropWhile isWordChar) = ps.length ∧ found.2.1 = false := by
  have hnil : takeDims [] = (0, false, []) := by decide +kernel
  have hcount : countDims [] = 0 := by decide +kernel
  intro found
  cases name with
  | none =>
    have hfound : found = (0 + ps.length, false, []) := by
      have hpairs := takeDims_pairs ps []
      rwa [List.append_nil, hnil] at hpairs
    rw [hfound]
    exact ⟨by simp [hcount], rfl⟩
  | some named =>
    have hfound : found = (0, false, named.2.chars ++ ps.flatMap Pair.text) :=
      takeDims_name named.1 named.2 _
    have hdrop : (named.2.chars ++ ps.flatMap Pair.text).dropWhile isWordChar =
        ps.flatMap Pair.text := dropWhile_append_of_head named.2.word (head_pairs ps)
    rw [hfound]
    exact ⟨by rw [hdrop, countDims_pairs, Nat.zero_add], rfl⟩

namespace WrittenParam

variable (p : WrittenParam)

-- All brackets behind a type count, those behind the name as well, and the dots.
theorem takeDims_behind :
    (takeDims p.behind).1 + countDims ((takeDims p.behind).2.2.dropWhile isWordChar) =
        p.pairs.length + p.namePairs.length ∧
      (takeDims p.behind).2.1 = p.ellipsis.isSome := by
  obtain ⟨hcount, hplain⟩ := takeDims_nameAndPairs p.name p.namePairs
  rw [behind, takeDims_pairs]
  cases p.ellipsis with
  | none =>
    rw [Option.map_none, Option.getD_none, List.nil_append]
    refine ⟨?_, hplain⟩
    dsimp only
    rw [Nat.add_right_comm, hcount, Nat.add_comm]
  | some bs =>
    rw [Option.map_some, Option.getD_some, takeDims_dots]
    refine ⟨?_, rfl⟩
    dsimp only
    rw [Nat.add_right_comm, hcount, Nat.add_comm]

-- Where the whole of the type is taken, it is the type that is read.
theorem paramOfText_of_spans (hspans : SpansType xs) (hstart : StartsWord xs)
    (hlast : ∀ c, xs.getLast? = some c → isWordChar c = true ∨ c = '>')
    (hdrop : dropParamModifiers cs = xs ++ p.behind ++ p.trail.chars) :
    paramOfText cs = ⟨String.ofList (collapseBlanks none false xs),
      p.pairs.length + p.namePairs.length, p.ellipsis.isSome⟩ := by
  have hend : EndsSolid xs := endsSolid_of_last hlast
  have htrim : trim (xs ++ p.behind ++ p.trail.chars) = xs ++ p.behind :=
    trim_append_blanks p.trail (hstart.append _) (hend.append p.endsSolid_behind)
  have hblanks := p.allBlank_spanType_behind
  have hdims : splitDims (xs ++ (spanType 0 p.behind).1) = (xs, 0) := by
    rw [splitDims_append_blanks ⟨_, hblanks⟩, splitDims_of_last hlast]
  have hrest : takeDims (spanType 0 p.behind).2 = takeDims p.behind := by
    refine takeDims_congr ?_
    rw [← trimStart_blanks_append ⟨_, hblanks⟩, spanType_append]
  obtain ⟨hcount, hdots⟩ := p.takeDims_behind
  rw [paramOfText, hdrop, htrim, hspans]
  simp only [hdims, hrest, hdots, collapseType, trim_eq_self hstart hend]
  rw [Nat.zero_add, hcount]

end WrittenParam

end Behind

-- A parameter as it may be written: modifiers, its type with pairs of brackets and `...` behind it,
-- and a name, which may have brackets behind it as well.
structure ParamText where
  lead : Blanks
  modifiers : List Modifier
  type : Spelling .type
  pairs : List Pair
  ellipsis : Option Blanks
  name : Option (Blanks × Word)
  namePairs : List Pair
  trail : Blanks
  divided : Divided modifiers
  -- a name does not stand directly behind a word
  separated : ∀ named, name = some named → named.1.chars = [] →
    pairs ≠ [] ∨ ellipsis.isSome = true ∨ type.isGeneric = true

namespace ParamText

variable (p : ParamText)

-- What is written behind the type.
def behind : List Char :=
  p.pairs.flatMap Pair.text ++ ((p.ellipsis.map fun bs => bs.chars ++ dots).getD [] ++
    ((p.name.map fun named => named.1.chars ++ named.2.chars).getD [] ++
      p.namePairs.flatMap Pair.text))

def text : List Char :=
  p.lead.chars ++ (p.modifiers.flatMap Modifier.text ++ (p.type.text ++ p.behind ++ p.trail.chars))

-- The type alone, with all its brackets behind it.
def print : List Char :=
  p.type.print ++ ((List.replicate (p.pairs.length + p.namePairs.length) ['[', ']']).flatten ++
    if p.ellipsis.isSome then dots else [])

-- How the reader expects a parameter: no blank beside a dot, a blank between `?` and the word behind
-- it, and a name that does not stand directly behind type arguments.
structure Plain : Prop where
  modifiers : ∀ m ∈ p.modifiers, m.Plain
  close : p.type.Close
  apart : p.type.Apart
  named : ∀ named, p.name = some named → named.1.chars = [] → p.pairs ≠ [] ∨ p.ellipsis.isSome = true

-- The name where nothing stands between the type and the name.
def glued : Option Word :=
  p.name.bind fun named =>
    if named.1.chars = [] ∧ p.pairs = [] ∧ p.ellipsis = none then some named.2 else none

-- What is taken for the type.
def typeText : List Char := p.type.text ++ (p.glued.map Word.chars).getD []

end ParamText

-- A signature as it may be written.
structure SignatureText where
  lead : Blanks
  name : Word
  gap : Blanks
  params : List ParamText
  -- what stands between the parentheses if there are no parameters
  empty : Blanks
  trail : Blanks
  -- only the last parameter is variadic
  last : ∀ p ∈ params.dropLast, p.ellipsis = none

namespace SignatureText

variable (s : SignatureText)

def paramsText : List Char :=
  if s.params = [] then s.empty.chars else [','].intercalate (s.params.map ParamText.text)

def text : String :=
  String.ofList (s.lead.chars ++ (s.name.chars ++ s.gap.chars ++ '(' :: (s.paramsText ++ [')']))
    ++ s.trail.chars)

-- The name and the types without blanks.
def print : List Char :=
  s.name.chars ++ '(' :: ([','].intercalate (s.params.map ParamText.print) ++ [')'])

end SignatureText

namespace ParamText

variable {p : ParamText}

theorem isGeneric_of_glued {w : Word} (h : p.glued = some w) : p.type.isGeneric = true := by
  obtain ⟨named, hname, hw⟩ := Option.bind_eq_some_iff.mp h
  split_ifs at hw with hglued
  obtain ⟨hnil, hpairs, hellipsis⟩ := hglued
  simpa [hpairs, hellipsis] using p.separated named hname hnil

theorem isGeneric_flatten (s : Spelling .type) : s.flatten.isGeneric = s.isGeneric := by
  cases s with
  | raw name => rfl
  | generic name before arguments => rfl

variable (p)

-- What is taken for the type, without the blanks outside of type arguments.
def typeName : TypeName where
  chars := p.type.flatten.text ++ (p.glued.map Word.chars).getD []
  named := by
    rw [isTypeName_flatten p.type rfl]
    cases p.glued with
    | none => rfl
    | some w =>
      have hword : isTypeName 0 true (w.chars ++ []) = true := isTypeName_word w.word fun _ => rfl
      rwa [List.append_nil] at hword
  closed := by
    refine (balanced_text p.type.flatten).append ?_ []
    cases p.glued with
    | none => exact balanced_nil
    | some w => exact balanced_of_word w.word
  unmodified := by
    refine takeWhile_text_ne ?_
    cases h : p.glued with
    | none => exact .inl rfl
    | some w => exact .inr ((isGeneric_flatten p.type).trans (isGeneric_of_glued h))

def written : WrittenParam where
  lead := p.lead
  type := p.typeName
  pairs := p.pairs
  ellipsis := p.ellipsis
  name := if p.glued.isSome then none else p.name
  namePairs := p.namePairs
  trail := p.trail
  separated := by
    intro named hname hnil
    split_ifs at hname with hglued
    by_contra hnone
    simp only [not_or, not_not, Bool.not_eq_true, Option.isSome_eq_false_iff,
      Option.isNone_iff_eq_none] at hnone
    simp [glued, hname, hnil, hnone] at hglued

theorem typeText_append_behind : p.typeText ++ p.written.behind = p.type.text ++ p.behind := by
  have hbehind : p.written.behind = p.pairs.flatMap Pair.text ++
      ((p.ellipsis.map fun bs => bs.chars ++ dots).getD [] ++
        (((if p.glued.isSome then none else p.name).map fun named =>
          named.1.chars ++ named.2.chars).getD [] ++ p.namePairs.flatMap Pair.text)) := rfl
  rw [typeText, hbehind]
  cases h : p.glued with
  | none =>
    rw [Option.map_none, Option.getD_none, List.append_nil]
    rfl
  | some w =>
    obtain ⟨named, hname, hw⟩ := Option.bind_eq_some_iff.mp h
    split_ifs at hw with hglued
    obtain ⟨hnil, hpairs, hellipsis⟩ := hglued
    obtain rfl := Option.some.inj hw
    simp [behind, hname, hnil, hpairs, hellipsis]

theorem startsWord_typeText : StartsWord p.typeText := (startsWord_text p.type rfl).append _

theorem getLast_typeText {c : Char} (h : p.typeText.getLast? = some c) :
    isWordChar c = true ∨ c = '>' := by
  rw [typeText, List.getLast?_append] at h
  cases hglued : p.glued with
  | none =>
    rw [hglued] at h
    exact getLast_text p.type rfl h
  | some w =>
    rw [hglued, Option.map_some, Option.getD_some, List.getLast?_eq_some_getLast w.nonempty] at h
    obtain rfl := Option.some.inj h
    exact .inl (w.word _ (List.getLast_mem w.nonempty))

theorem spansType_typeText (h : p.type.Close) : SpansType p.typeText := by
  refine (spansType_text p.type rfl h).append ?_
  cases p.glued with
  | none => exact .nil
  | some w => exact spansType_word w.word

theorem isWhole_typeText : isWhole 0 p.typeText = true := by
  refine isWhole_append (Signature.isWhole_text p.type rfl) ?_
  cases p.glued with
  | none => rfl
  | some w => exact isWhole_of_word w.word

theorem text_eq : p.text = p.lead.chars ++ (p.modifiers.flatMap Modifier.text ++
    (p.typeText ++ p.written.behind ++ p.written.trail.chars)) := by
  rw [typeText_append_behind]
  rfl

variable {p} (h : ∀ m ∈ p.modifiers, m.Plain)

include h

theorem isWhole_text : isWhole 0 p.text = true := by
  rw [text_eq]
  exact isWhole_append (isWhole_blanks p.lead) (isWhole_append (isWhole_modifiers h)
    (isWhole_append (isWhole_append p.isWhole_typeText p.written.isWhole_behind)
      (isWhole_blanks p.trail)))

theorem dropParamModifiers_text :
    dropParamModifiers p.text = p.typeText ++ p.written.behind ++ p.written.trail.chars := by
  rw [text_eq]
  refine dropParamModifiers_append p.divided h ((p.startsWord_typeText.append _).append _) ?_ p.lead
  rw [typeText, List.append_assoc, List.append_assoc]
  refine takeWhile_text_ne ?_
  cases hglued : p.glued with
  | none => exact .inl p.written.head_behind
  | some w => exact .inr (isGeneric_of_glued hglued)

-- A parameter is read as one of the type that it is written with.
theorem paramOfText_text (hclose : p.type.Close) :
    paramOfText p.text = ⟨String.ofList (collapseBlanks none false p.typeText),
      p.pairs.length + p.namePairs.length, p.ellipsis.isSome⟩ :=
  p.written.paramOfText_of_spans (p.spansType_typeText hclose) p.startsWord_typeText
    (fun _ => p.getLast_typeText) (dropParamModifiers_text h)

omit h

theorem allBlank_text (p : ParamText) : allBlank p.text = false := by
  obtain ⟨c, cs, heq, hc⟩ := p.startsWord_typeText
  simp [text_eq, heq, allBlank, isBlank_eq_false_of_isWordChar hc]

theorem Plain.typeText_eq (h : p.Plain) : p.typeText = p.type.text := by
  have hglued : p.glued = none := by
    by_contra hne
    obtain ⟨w, hw⟩ := Option.ne_none_iff_exists'.mp hne
    obtain ⟨named, hname, hw⟩ := Option.bind_eq_some_iff.mp hw
    split_ifs at hw with hglued
    simpa [hglued] using h.named named hname hglued.left
  rw [typeText, hglued, Option.map_none, Option.getD_none, List.append_nil]

theorem Plain.canonical_paramOfText (h : p.Plain) :
    (paramOfText p.text).canonical.toList = p.print := by
  rw [paramOfText_text h.modifiers h.close, h.typeText_eq, collapseBlanks_text p.type h.apart,
    ParamType.canonical, print, String.toList_append, String.toList_append, String.toList_ofList,
    ParamType.toList_brackets, List.append_assoc]
  cases p.ellipsis with
  | none => rfl
  | some bs => simp [dots]

end ParamText

namespace SignatureText

variable (s : SignatureText)

theorem readParams_paramsText (h : ∀ p ∈ s.params, ∀ m ∈ p.modifiers, m.Plain) :
    readParams s.paramsText = s.params.map fun p => paramOfText p.text := by
  rw [paramsText]
  split_ifs with hnil
  · rw [readParams_blanks, hnil, List.map_nil]
  · rw [readParams_intercalate, List.map_map]
    · rfl
    · simpa using fun p hp => And.intro (ParamText.isWhole_text (h p hp)) p.allBlank_text

theorem ofString_text (h : ∀ p ∈ s.params, ∀ m ∈ p.modifiers, m.Plain) :
    ofString s.text = ⟨String.ofList s.name.chars, s.params.map fun p => paramOfText p.text⟩ := by
  rw [ofString, text, String.toList_ofList, ofText_between, s.readParams_paramsText h]

-- However it is written, the canonical spelling of a signature is its name with its types.
theorem canonicalSignature_text (h : ∀ p ∈ s.params, p.Plain) :
    canonicalSignature s.text = String.ofList s.print := by
  rw [canonicalSignature, s.ofString_text fun p hp => (h p hp).modifiers, ← String.toList_inj,
    canonicalForm, toList_render, String.toList_ofList, String.toList_ofList, List.map_map,
    List.map_map, print]
  have hprint : s.params.map ((String.toList ∘ ParamType.canonical) ∘ fun p => paramOfText p.text) =
      s.params.map ParamText.print :=
    List.map_congr_left fun p hp => (h p hp).canonical_paramOfText
  rw [hprint]

end SignatureText

-- The text of a word.
def Word.of (text : String) (h : text.toList ≠ [] ∧ text.toList.all isWordChar = true) : Word :=
  ⟨text.toList, h.left, List.all_eq_true.mp h.right⟩

theorem allBlank_nil : allBlank [] = true := rfl

def Blanks.none : Blanks := ⟨[], allBlank_nil⟩

def Blanks.space : Blanks := ⟨[' '], by decide⟩

def Spelling.word (text : String) (h : text.toList ≠ [] ∧ text.toList.all isWordChar = true)
    (hfinal : text.toList ≠ "final".toList) : Spelling .type :=
  .raw (.simple ⟨.of text h, hfinal⟩)

namespace SignatureText

-- A modifier and an annotation, blanks and brackets in many places, and the last name without one.
theorem canonicalSignature_text_annotated :
    ∃ s : SignatureText,
      s.text = "m(final @a.B (x = (y))util.List < ? extends T[ ] > xs[ ] , int...ys)" ∧
        (∀ p ∈ s.params, p.Plain) ∧
          canonicalSignature s.text = "m(util.List<? extends T[]>[],int...)" := by
  let s : SignatureText := {
    lead := .none
    name := .of "m" (by decide +kernel)
    gap := .none
    params := [
      { lead := .none
        modifiers := [.final .space,
          .annotated ⟨.none, .of "a" (by decide +kernel), [⟨.none, .none, .of "B" (by decide +kernel)⟩],
            some ⟨.space, "x = (y)".toList, by decide +kernel⟩⟩ .none]
        type := .generic (.member (.word "util" (by decide +kernel) (by decide +kernel)) .none .none
          (.of "List" (by decide +kernel))) .space (.single (.bounded .space .space .upper .space
            (List.cons_ne_nil _ _) (.array (.plain (.word "T" (by decide +kernel) (by decide +kernel)))
              ⟨.none, .space⟩) .space))
        pairs := []
        ellipsis := .none
        name := some (.space, .of "xs" (by decide +kernel))
        namePairs := [⟨.none, .space⟩]
        trail := .space
        divided := by simp [Divided, Modifier.endsInWord, Modifier.after, Blanks.space]
        separated := by simp [Blanks.space] },
      { lead := .space
        modifiers := []
        type := .word "int" (by decide +kernel) (by decide +kernel)
        pairs := []
        ellipsis := some .none
        name := some (.none, .of "ys" (by decide +kernel))
        namePairs := []
        trail := .none
        divided := trivial
        separated := by simp }]
    empty := .none
    trail := .none
    last := by simp }
  have hplain : ∀ p ∈ s.params, p.Plain := by
    refine List.forall_mem_cons.mpr ⟨?_, List.forall_mem_singleton.mpr ?_⟩
    · exact ⟨by simp [Modifier.Plain, Blanks.space, Blanks.none]; decide +kernel, ⟨trivial, rfl, rfl⟩,
        ⟨trivial, List.cons_ne_nil _ _, trivial⟩, by simp [Blanks.space]⟩
    · exact ⟨by simp, trivial, trivial, by simp⟩
  refine ⟨s, by decide +kernel, hplain, (s.canonicalSignature_text hplain).trans ?_⟩
  decide +kernel

-- A name directly behind type arguments is taken for a part of the type.
theorem not_forall_canonicalSignature_text :
    ¬∀ s : SignatureText, canonicalSignature s.text = String.ofList s.print := by
  intro h
  have hglued := h
    { lead := .none
      name := .of "m" (by decide +kernel)
      gap := .none
      params := [
        { lead := .none
          modifiers := []
          type := .generic (.simple ⟨.of "List" (by decide +kernel), by decide +kernel⟩) .none
            (.single (.exact .none (.plain (.word "String" (by decide +kernel) (by decide +kernel)))
              .none))
          pairs := []
          ellipsis := .none
          name := some (.none, .of "x" (by decide +kernel))
          namePairs := []
          trail := .none
          divided := trivial
          separated := by simp [Spelling.isGeneric] }]
      empty := .none
      trail := .none
      last := by simp }
  have hread : canonicalSignature "m(List<String>x)" = "m(List<String>)" := hglued
  revert hread
  decide +kernel

end SignatureText

end ClassSplit.Signature
