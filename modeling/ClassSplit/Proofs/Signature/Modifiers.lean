import ClassSplit.Proofs.Signature.TypeSpelling

/-!
Modifiers of parameters. In front of the type of a parameter there may be the word `final` and
annotations, which may have arguments, and reading a parameter drops all of them. Main statement:
`dropParamModifiers_append`, which also says what the reader expects of the modifiers.
-/

namespace ClassSplit.Signature

open Text

variable {c : Char} {cs xs ys rest : List Char}

-- A dot and a word of a qualified name.
structure Member where
  before : Blanks
  after : Blanks
  word : Word

def Member.text (m : Member) : List Char := m.before.chars ++ '.' :: (m.after.chars ++ m.word.chars)

def isParen (c : Char) : Bool := c = '(' ∨ c = ')'

-- The arguments of an annotation, with any text in which each parenthesis is closed.
structure Arguments where
  before : Blanks
  chars : List Char
  closed : openAfter [] (chars.filter isParen) = some []

def Arguments.text (a : Arguments) : List Char := a.before.chars ++ '(' :: (a.chars ++ [')'])

structure AnnotationText where
  gap : Blanks
  name : Word
  members : List Member
  arguments : Option Arguments

def AnnotationText.text (a : AnnotationText) : List Char :=
  '@' :: (a.gap.chars ++ (a.name.chars ++ (a.members.flatMap Member.text ++
    (a.arguments.map Arguments.text).getD [])))

-- A modifier and the blanks behind it.
inductive Modifier where
  | final (after : Blanks)
  | annotated (text : AnnotationText) (after : Blanks)

namespace Modifier

def after : Modifier → Blanks
  | final after => after
  | annotated _ after => after

def text : Modifier → List Char
  | final after => "final".toList ++ after.chars
  | annotated a after => a.text ++ after.chars

def isAnnotated : Modifier → Bool
  | final _ => false
  | annotated _ _ => true

def endsInWord : Modifier → Bool
  | final _ => true
  | annotated a _ => a.arguments.isNone

-- How the reader expects a modifier: a blank behind `final`, none inside of the name of an
-- annotation, and all brackets in its arguments closed in turn.
def Plain : Modifier → Prop
  | final after => after.chars ≠ []
  | annotated a _ => a.gap.chars = [] ∧
      (∀ m ∈ a.members, m.before.chars = [] ∧ m.after.chars = []) ∧
        ∀ arguments ∈ a.arguments, openAfter [] arguments.chars = some []

end Modifier

-- No modifier runs into the word behind it.
def Divided : List Modifier → Prop
  | [] => True
  | m :: ms => (m.endsInWord = true → m.after.chars = [] →
      ms.head?.any Modifier.isAnnotated = true) ∧ Divided ms

section Reading

theorem dropParamModifiers_of_at (h : trimStart cs = '@' :: rest) :
    dropParamModifiers cs = dropParamModifiers (annotationRest rest) := by
  fun_cases dropParamModifiers cs with
  | case1 hnil =>
    rw [h] at hnil
    cases hnil
  | case2 rest' hcs =>
    rw [h] at hcs
    obtain ⟨-, rfl⟩ := List.cons.inj hcs
    rfl
  | case3 d rest' hcs hne =>
    rw [h] at hcs
    exact absurd (List.cons.inj hcs).left.symm hne
  | case4 d rest' hcs hne =>
    rw [h] at hcs
    exact absurd (List.cons.inj hcs).left.symm hne

theorem dropParamModifiers_of_final (h : trimStart cs = "final".toList ++ c :: rest)
    (hc : isBlank c = true) : dropParamModifiers cs = dropParamModifiers (c :: rest) := by
  have hfinal : afterFinal? (trimStart cs) = some (c :: rest) := by
    rw [h]
    exact if_pos hc
  fun_cases dropParamModifiers cs with
  | case1 hnil =>
    rw [h] at hnil
    cases hnil
  | case2 rest' hcs =>
    rw [h] at hcs
    exact absurd (List.cons.inj hcs).left (by decide)
  | case3 d rest' hcs _ rest'' hrest =>
    rw [← hcs, hfinal] at hrest
    rw [← Option.some.inj hrest]
  | case4 d rest' hcs _ hnone =>
    rw [← hcs, hfinal] at hnone
    cases hnone

theorem dropParamModifiers_of_word (h : trimStart cs = xs) (hstart : StartsWord xs)
    (hfinal : xs.takeWhile isWordChar ≠ "final".toList) : dropParamModifiers cs = xs := by
  obtain ⟨c, rest, rfl, hc⟩ := hstart
  fun_cases dropParamModifiers cs with
  | case1 hnil =>
    rw [h] at hnil
    cases hnil
  | case2 rest' hcs =>
    rw [h] at hcs
    exact absurd hc (by rw [(List.cons.inj hcs).left]; decide)
  | case3 d rest' hcs _ rest'' hrest =>
    rw [← hcs, h, afterFinal?_eq_none hfinal] at hrest
    cases hrest
  | case4 d rest' hcs => rw [← hcs, h]

def isNameChar (c : Char) : Bool := isWordChar c || c == '.'

theorem dropWhile_append_of_head {p : Char → Bool} (hxs : ∀ c ∈ xs, p c = true)
    (hys : ys.head?.all (!p ·) = true) : (xs ++ ys).dropWhile p = ys := by
  rw [List.dropWhile_append_of_pos hxs]
  cases ys with
  | nil => rfl
  | cons c ys => exact List.dropWhile_cons_of_neg (by simpa using hys)

theorem head_blanks_name (bs : Blanks) (h : bs.chars = [] → xs.head?.all (!isNameChar ·) = true) :
    (bs.chars ++ xs).head?.all (!isNameChar ·) = true := by
  refine head_blanks (fun c hc => ?_) bs h
  simp [isNameChar, isWordChar_eq_false_of_isBlank hc, ne_of_isBlank hc '.' (by decide)]

-- The arguments of an annotation are dropped with it.
theorem annotationRest_of_arguments {name : List Char} (hname : ∀ c ∈ name, isNameChar c = true)
    (bs : Blanks) (hxs : openAfter [] xs = some []) :
    annotationRest (name ++ (bs.chars ++ '(' :: (xs ++ ')' :: rest))) = rest := by
  have hparen : isBlank '(' = false ∧ isNameChar '(' = false := by decide
  have hdrop : (name ++ (bs.chars ++ '(' :: (xs ++ ')' :: rest))).dropWhile
      (fun c => isWordChar c || c == '.') = bs.chars ++ '(' :: (xs ++ ')' :: rest) :=
    dropWhile_append_of_head hname (head_blanks_name bs fun _ => by simp [hparen.right])
  have hgroup : afterGroup 0 ('(' :: (xs ++ ')' :: rest)) = rest := by
    have hinside := afterGroup_inside Nat.one_pos hxs (')' :: rest)
    simp only [List.count_nil, Nat.add_zero] at hinside
    rw [afterGroup, if_pos rfl, hinside]
    simp [afterGroup]
  rw [annotationRest, hdrop, trimStart_blanks_append, trimStart_of_head hparen.left]
  exact hgroup

-- Without arguments only the name of the annotation is dropped, and the blanks behind it.
theorem annotationRest_of_name {name : List Char} (hname : ∀ c ∈ name, isNameChar c = true)
    (hhead : xs.head?.all (!isNameChar ·) = true) (htrim : trimStart xs = c :: rest) (hc : c ≠ '(') :
    annotationRest (name ++ xs) = c :: rest := by
  have hdrop : (name ++ xs).dropWhile (fun c => isWordChar c || c == '.') = xs :=
    dropWhile_append_of_head hname hhead
  rw [annotationRest, hdrop, htrim]
  split
  case h_1 _ heq => exact absurd (List.cons.inj heq).left hc
  case h_2 => rfl

end Reading

namespace AnnotationText

variable {a : AnnotationText}

theorem isNameChar_of_mem (hmembers : ∀ m ∈ a.members, m.before.chars = [] ∧ m.after.chars = []) :
    ∀ c ∈ a.name.chars ++ a.members.flatMap Member.text, isNameChar c = true := by
  have hword (w : Word) : ∀ c ∈ w.chars, isNameChar c = true := by
    intro c hc
    simp [isNameChar, w.word c hc]
  intro c hc
  obtain hc | hc := List.mem_append.mp hc
  · exact hword a.name c hc
  · obtain ⟨m, hm, hc⟩ := List.mem_flatMap.mp hc
    obtain ⟨hbefore, hafter⟩ := hmembers m hm
    rw [Member.text, hbefore, hafter, List.nil_append, List.nil_append] at hc
    obtain rfl | hc := List.mem_cons.mp hc
    · decide
    · exact hword m.word c hc

-- Behind an annotation there may be blanks, and something else than a part of it.
theorem annotationRest_text (hmembers : ∀ m ∈ a.members, m.before.chars = [] ∧ m.after.chars = [])
    (hclosed : ∀ arguments ∈ a.arguments, openAfter [] arguments.chars = some []) (after : Blanks)
    (hnext : isBlank c = false ∧ c ≠ '(')
    (hapart : a.arguments = none → after.chars = [] → isNameChar c = false) :
    annotationRest (a.name.chars ++ a.members.flatMap Member.text ++
        ((a.arguments.map Arguments.text).getD [] ++ (after.chars ++ c :: cs))) =
          (if a.arguments.isSome then after.chars ++ c :: cs else c :: cs) := by
  have hname := isNameChar_of_mem hmembers
  cases harguments : a.arguments with
  | none =>
    have hhead : (after.chars ++ c :: cs).head?.all (!isNameChar ·) = true :=
      head_blanks_name after fun hnil => by simp [hapart harguments hnil]
    have htrim : trimStart (after.chars ++ c :: cs) = c :: cs := by
      rw [trimStart_blanks_append, trimStart_of_head hnext.left]
    rw [Option.map_none, Option.getD_none, List.nil_append]
    exact annotationRest_of_name hname hhead htrim hnext.right
  | some arguments =>
    have htext : arguments.text ++ (after.chars ++ c :: cs) =
        arguments.before.chars ++ '(' :: (arguments.chars ++ ')' :: (after.chars ++ c :: cs)) := by
      simp [Arguments.text]
    rw [Option.map_some, Option.getD_some, htext]
    exact annotationRest_of_arguments hname arguments.before (hclosed _ harguments)

theorem isWhole_text (hclosed : ∀ arguments ∈ a.arguments, openAfter [] arguments.chars = some []) :
    isWhole 0 a.text = true := by
  have hmember (m : Member) : isWhole 0 m.text = true := by
    have hword := isWhole_append (isWhole_blanks m.after) (isWhole_of_word m.word.word)
    refine isWhole_append (isWhole_blanks m.before) ?_
    simpa [isWhole, opens, closes] using hword
  have harguments : isWhole 0 ((a.arguments.map Arguments.text).getD []) = true := by
    cases h : a.arguments with
    | none => rfl
    | some arguments =>
      exact isWhole_append (isWhole_blanks arguments.before)
        (isWhole_enclose (hclosed arguments h) rfl ⟨rfl, rfl⟩)
  have hname := isWhole_append (isWhole_of_word a.name.word)
    (isWhole_append (isWhole_flatMap hmember a.members) harguments)
  simpa [text, isWhole, opens, closes] using isWhole_append (isWhole_blanks a.gap) hname

end AnnotationText

section Modifiers

variable {ms : List Modifier}

-- The first character of the modifiers and the type.
theorem exists_head_modifiers (ms : List Modifier) (hrest : StartsWord rest) :
    ∃ c cs, ms.flatMap Modifier.text ++ rest = c :: cs ∧ isBlank c = false ∧ c ≠ '(' ∧
      (ms.head?.any Modifier.isAnnotated = true → c = '@') := by
  cases ms with
  | nil =>
    obtain ⟨c, cs, rfl, hc⟩ := hrest
    exact ⟨c, cs, rfl, isBlank_eq_false_of_isWordChar hc, ne_of_isWordChar hc '(' (by decide),
      fun h => by cases h⟩
  | cons m ms =>
    cases m with
    | final after => exact ⟨'f', _, rfl, by decide, by decide, fun h => by cases h⟩
    | annotated a after => exact ⟨'@', _, rfl, by decide, by decide, fun _ => rfl⟩

theorem dropParamModifiers_append (hdivided : Divided ms) (hplain : ∀ m ∈ ms, m.Plain)
    (hrest : StartsWord rest) (hfinal : rest.takeWhile isWordChar ≠ "final".toList) (bs : Blanks) :
    dropParamModifiers (bs.chars ++ (ms.flatMap Modifier.text ++ rest)) = rest := by
  induction ms generalizing bs with
  | nil =>
    refine dropParamModifiers_of_word ?_ hrest hfinal
    rw [trimStart_blanks_append]
    exact hrest.trimStart_eq
  | cons m ms ih =>
    have hothers := ih hdivided.right fun m hm => hplain m (List.mem_cons_of_mem _ hm)
    have hmodifier := hplain m List.mem_cons_self
    obtain ⟨c, cs, hnext, hblank, hparen, hat⟩ := exists_head_modifiers ms hrest
    rw [List.flatMap_cons, List.append_assoc, hnext]
    rw [hnext] at hothers
    cases m with
    | final after =>
      obtain ⟨b, bs', hafter⟩ := List.exists_cons_of_ne_nil hmodifier
      have hb : isBlank b = true := by
        have hblanks := after.blank
        rw [hafter] at hblanks
        exact (Bool.and_eq_true_iff.mp hblanks).left
      have htrim : trimStart (bs.chars ++ ((Modifier.final after).text ++ c :: cs)) =
          "final".toList ++ b :: (bs' ++ c :: cs) := by
        rw [trimStart_blanks_append, Modifier.text, hafter]
        exact trimStart_of_head (by decide)
      have hafters := hothers after
      rw [hafter] at hafters
      exact (dropParamModifiers_of_final htrim hb).trans hafters
    | annotated a after =>
      obtain ⟨hgap, hmembers, hclosed⟩ := hmodifier
      have htrim : trimStart (bs.chars ++ ((Modifier.annotated a after).text ++ c :: cs)) =
          '@' :: (a.name.chars ++ a.members.flatMap Member.text ++
            ((a.arguments.map Arguments.text).getD [] ++ (after.chars ++ c :: cs))) := by
        rw [trimStart_blanks_append, Modifier.text, AnnotationText.text, hgap]
        refine (trimStart_of_head (by decide)).trans ?_
        simp
      have hapart : a.arguments = none → after.chars = [] → isNameChar c = false := by
        intro hnone hnil
        rw [hat (hdivided.left (by rw [Modifier.endsInWord, hnone]; rfl) hnil)]
        decide
      rw [dropParamModifiers_of_at htrim,
        a.annotationRest_text hmembers hclosed after ⟨hblank, hparen⟩ hapart]
      split_ifs
      · exact hothers after
      · exact hothers ⟨[], rfl⟩

-- No comma divides modifiers that the reader expects.
theorem isWhole_modifiers (hplain : ∀ m ∈ ms, m.Plain) :
    isWhole 0 (ms.flatMap Modifier.text) = true := by
  induction ms with
  | nil => rfl
  | cons m ms ih =>
    have hmodifier := hplain m List.mem_cons_self
    refine isWhole_append ?_ (ih fun m hm => hplain m (List.mem_cons_of_mem _ hm))
    cases m with
    | final after => exact isWhole_append (by decide +kernel) (isWhole_blanks after)
    | annotated a after =>
      exact isWhole_append (a.isWhole_text hmodifier.right.right) (isWhole_blanks after)

end Modifiers

end ClassSplit.Signature
