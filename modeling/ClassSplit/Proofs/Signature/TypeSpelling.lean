import ClassSplit.Proofs.Signature.Inside
import ClassSplit.Proofs.Signature.Matching

/-!
Types as they may be written. A type is a name, which may be qualified, with or without type
arguments, and blanks may stand between any two of its tokens. Main statements: `spansType_text`,
which says when the whole of it is taken for a type, and `collapseBlanks_text`, which says how it is
read then.
-/

namespace ClassSplit.Signature

open Text

variable {c : Char} {cs xs ys opened : List Char}

-- A word that is no modifier.
structure Identifier where
  word : Word
  unreserved : word.chars ≠ "final".toList

-- The word between a wildcard and its bound.
inductive Bound where
  | upper
  | lower

def Bound.word : Bound → Word
  | .upper => ⟨"extends".toList, by decide, List.all_eq_true.mp (by decide +kernel)⟩
  | .lower => ⟨"super".toList, by decide, List.all_eq_true.mp (by decide +kernel)⟩

-- The phrases of the grammar of types: a name may be qualified by a type, and an element is a type
-- that may have brackets behind it.
inductive Phrase where
  | name
  | type
  | element
  | argument
  | arguments

-- Outside of type arguments there are names and types only.
def Phrase.isOutside : Phrase → Bool
  | name => true
  | type => true
  | _ => false

-- A phrase with the blanks in it.
inductive Spelling : Phrase → Type
  | simple (identifier : Identifier) : Spelling .name
  | member (outer : Spelling .type) (before after : Blanks) (word : Word) : Spelling .name
  | raw (name : Spelling .name) : Spelling .type
  | generic (name : Spelling .name) (before : Blanks) (arguments : Spelling .arguments) :
      Spelling .type
  | plain (type : Spelling .type) : Spelling .element
  | array (element : Spelling .element) (pair : Pair) : Spelling .element
  | exact (before : Blanks) (element : Spelling .element) (after : Blanks) : Spelling .argument
  | wildcard (before after : Blanks) : Spelling .argument
  | bounded (before gap : Blanks) (bound : Bound) (space : Blanks) (spaced : space.chars ≠ [])
      (element : Spelling .element) (after : Blanks) : Spelling .argument
  | single (argument : Spelling .argument) : Spelling .arguments
  | more (argument : Spelling .argument) (others : Spelling .arguments) : Spelling .arguments

namespace Spelling

@[grind =]
def text {phrase : Phrase} : Spelling phrase → List Char
  | simple identifier => identifier.word.chars
  | member outer before after word =>
    outer.text ++ before.chars ++ '.' :: (after.chars ++ word.chars)
  | raw name => name.text
  | generic name before arguments =>
    name.text ++ (before.chars ++ '<' :: (arguments.text ++ ['>']))
  | plain type => type.text
  | array element pair => element.text ++ pair.text
  | exact before element after => before.chars ++ element.text ++ after.chars
  | wildcard before after => before.chars ++ '?' :: after.chars
  | bounded before gap bound space _ element after =>
    before.chars ++ '?' :: (gap.chars ++ (bound.word.chars ++ (space.chars ++
      (element.text ++ after.chars))))
  | single argument => argument.text
  | more argument others => argument.text ++ ',' :: others.text

-- The phrase without blanks, but for single spaces around the word that bounds a wildcard.
@[grind =]
def print {phrase : Phrase} : Spelling phrase → List Char
  | simple identifier => identifier.word.chars
  | member outer _ _ word => outer.print ++ '.' :: word.chars
  | raw name => name.print
  | generic name _ arguments => name.print ++ '<' :: (arguments.print ++ ['>'])
  | plain type => type.print
  | array element _ => element.print ++ ['[', ']']
  | exact _ element _ => element.print
  | wildcard _ _ => ['?']
  | bounded _ _ bound _ _ element _ => '?' :: ' ' :: (bound.word.chars ++ ' ' :: element.print)
  | single argument => argument.print
  | more argument others => argument.print ++ ',' :: others.print

-- No blank stands beside a dot outside of type arguments.
def Close {phrase : Phrase} : Spelling phrase → Prop
  | member outer before after _ => outer.Close ∧ before.chars = [] ∧ after.chars = []
  | raw name => name.Close
  | generic name _ _ => name.Close
  | _ => True

-- A blank stands between each `?` and the word that bounds it.
def Apart {phrase : Phrase} : Spelling phrase → Prop
  | simple _ => True
  | member outer _ _ _ => outer.Apart
  | raw name => name.Apart
  | generic name _ arguments => name.Apart ∧ arguments.Apart
  | plain type => type.Apart
  | array element _ => element.Apart
  | exact _ element _ => element.Apart
  | wildcard _ _ => True
  | bounded _ gap _ _ _ element _ => gap.chars ≠ [] ∧ element.Apart
  | single argument => argument.Apart
  | more argument others => argument.Apart ∧ others.Apart

def isGeneric : Spelling .type → Bool
  | raw _ => false
  | generic _ _ _ => true

-- The phrase without the blanks outside of type arguments.
@[grind =]
def flatten {phrase : Phrase} : Spelling phrase → Spelling phrase
  | member outer _ _ word => member outer.flatten ⟨[], rfl⟩ ⟨[], rfl⟩ word
  | raw name => raw name.flatten
  | generic name _ arguments => generic name.flatten ⟨[], rfl⟩ arguments
  | s => s

end Spelling

variable {phrase : Phrase}

section Brackets

-- Texts that close the brackets that they open, and none besides.
def Balanced (xs : List Char) : Prop := ∀ opened, openAfter opened xs = some opened

theorem Balanced.append (hxs : Balanced xs) (hys : Balanced ys) : Balanced (xs ++ ys) := by
  intro opened
  rw [openAfter_append, hxs opened]
  exact hys opened

theorem balanced_nil : Balanced [] := fun _ => rfl

theorem Balanced.cons (hxs : Balanced xs) (h : opens c = false ∧ closes c = false) :
    Balanced (c :: xs) := by
  intro opened
  rw [openAfter, if_neg (by simp [h]), if_neg (by simp [h])]
  exact hxs opened

-- A pair of brackets around a balanced text.
theorem Balanced.enclose (hxs : Balanced xs) {o c : Char} (ho : opens o = true)
    (hc : opens c = false ∧ closes c = true) (hpairs : pairs o c = true) :
    Balanced (o :: (xs ++ [c])) := by
  intro opened
  rw [openAfter, if_pos ho, openAfter_append, hxs (o :: opened)]
  simp [openAfter, hc, afterClosing?, hpairs]

theorem balanced_of_word (h : ∀ c ∈ xs, isWordChar c = true) : Balanced xs := by
  induction xs with
  | nil => exact balanced_nil
  | cons c xs ih =>
    have hc := h c List.mem_cons_self
    exact (ih fun d hd => h d (List.mem_cons_of_mem _ hd)).cons
      ⟨opens_of_isWordChar hc, closes_of_isWordChar hc⟩

theorem Blanks.balanced (bs : Blanks) : Balanced bs.chars := fun _ =>
  (IsDims.of_blanks (by simpa [allBlank] using bs.blank)).openAfter

theorem Pair.balanced (p : Pair) : Balanced p.text :=
  p.before.balanced.append (p.inside.balanced.enclose rfl ⟨rfl, rfl⟩ rfl)

theorem balanced_text (s : Spelling phrase) : Balanced s.text := by
  induction s with
  | simple identifier => exact balanced_of_word identifier.word.word
  | member outer before after word ih =>
    exact (ih.append before.balanced).append
      ((after.balanced.append (balanced_of_word word.word)).cons ⟨rfl, rfl⟩)
  | raw name ih => exact ih
  | generic name before arguments ihName ihArguments =>
    exact ihName.append (before.balanced.append (ihArguments.enclose rfl ⟨rfl, rfl⟩ rfl))
  | plain type ih => exact ih
  | array element pair ih => exact ih.append pair.balanced
  | exact before element after ih => exact (before.balanced.append ih).append after.balanced
  | wildcard before after => exact before.balanced.append (after.balanced.cons ⟨rfl, rfl⟩)
  | bounded before gap bound space spaced element after ih =>
    exact before.balanced.append ((gap.balanced.append ((balanced_of_word
      bound.word.word).append (space.balanced.append (ih.append after.balanced)))).cons
        ⟨rfl, rfl⟩)
  | single argument ih => exact ih
  | more argument others ih ihOthers => exact ih.append (ihOthers.cons ⟨rfl, rfl⟩)

-- No comma divides a text in angle brackets or in parentheses.
theorem isWhole_enclose (hxs : openAfter [] xs = some []) {o c : Char} (ho : opens o = true)
    (hc : opens c = false ∧ closes c = true) : isWhole 0 (o :: (xs ++ [c])) = true := by
  have hinside : isWhole 1 (xs ++ [c]) = isWhole 1 [c] := isWhole_inside Nat.one_pos hxs [c]
  rw [isWhole, if_pos ho, hinside]
  simp [isWhole, hc]

end Brackets

section Outside

theorem head_append_not_word (hxs : xs.head?.all (!isWordChar ·) = true)
    (hys : ys.head?.all (!isWordChar ·) = true) : (xs ++ ys).head?.all (!isWordChar ·) = true := by
  cases xs with
  | nil => exact hys
  | cons c xs => exact hxs

-- A type begins with an identifier.
theorem exists_identifier (s : Spelling phrase) (h : phrase.isOutside = true) :
    ∃ (i : Identifier) (rest : List Char), s.text = i.word.chars ++ rest ∧
      rest.head?.all (!isWordChar ·) = true := by
  have hdot : isWordChar '.' = false := by decide
  have hangle : isWordChar '<' = false := by decide
  induction s with
  | simple identifier => exact ⟨identifier, [], by rw [Spelling.text, List.append_nil], rfl⟩
  | member outer before after word ih =>
    obtain ⟨i, rest, heq, hrest⟩ := ih rfl
    refine ⟨i, rest ++ (before.chars ++ '.' :: (after.chars ++ word.chars)), by
      simp [Spelling.text, heq], head_append_not_word hrest ?_⟩
    exact head_blanks_append before fun _ => by simp [hdot]
  | raw name ih => exact ih rfl
  | generic name before arguments ih =>
    obtain ⟨i, rest, heq, hrest⟩ := ih rfl
    refine ⟨i, rest ++ (before.chars ++ '<' :: (arguments.text ++ ['>'])), by
      simp [Spelling.text, heq], head_append_not_word hrest ?_⟩
    exact head_blanks_append before fun _ => by simp [hangle]
  | _ => cases h

theorem startsWord_text (s : Spelling phrase) (h : phrase.isOutside = true) : StartsWord s.text := by
  obtain ⟨i, rest, heq, -⟩ := exists_identifier s h
  rw [heq]
  exact i.word.startsWord.append rest

-- It ends with a word or with type arguments.
theorem getLast_text (s : Spelling phrase) (h : phrase.isOutside = true) {c : Char}
    (hc : s.text.getLast? = some c) : isWordChar c = true ∨ c = '>' := by
  have hword (w : Word) (xs : List Char) (hlast : (xs ++ w.chars).getLast? = some c) :
      isWordChar c = true := by
    rw [List.getLast?_append_of_ne_nil _ w.nonempty] at hlast
    exact w.word c (List.mem_of_getLast? hlast)
  induction s with
  | simple identifier => exact .inl (hword identifier.word [] hc)
  | member outer before after word _ =>
    refine .inl (hword word (outer.text ++ before.chars ++ '.' :: after.chars) ?_)
    simpa [Spelling.text] using hc
  | raw name ih => exact ih rfl hc
  | generic name before arguments _ =>
    have hlast : ((name.text ++ before.chars ++ '<' :: arguments.text) ++ ['>']).getLast? =
        some c := by simpa [Spelling.text] using hc
    rw [List.getLast?_concat] at hlast
    exact .inr (Option.some.inj hlast).symm
  | _ => cases h

theorem getLast_text_of_isGeneric {s : Spelling .type} (h : s.isGeneric = true) :
    ∃ front, s.text = front ++ ['>'] := by
  cases s with
  | raw name => cases h
  | generic name before arguments =>
    exact ⟨name.text ++ before.chars ++ '<' :: arguments.text, by simp [Spelling.text]⟩

-- The first word is no modifier, even if a word follows the type arguments directly.
theorem takeWhile_text_ne {s : Spelling .type} (h : ys.head?.all (!isWordChar ·) = true ∨
    s.isGeneric = true) : (s.text ++ ys).takeWhile isWordChar ≠ "final".toList := by
  obtain ⟨i, rest, heq, hrest⟩ := exists_identifier s rfl
  have hhead : (rest ++ ys).head?.all (!isWordChar ·) = true := by
    cases rest with
    | cons c rest => exact hrest
    | nil =>
      refine h.resolve_right fun hgeneric => ?_
      obtain ⟨front, hlast⟩ := getLast_text_of_isGeneric hgeneric
      have hmem : '>' ∈ i.word.chars := by
        rw [List.append_nil] at heq
        rw [← heq, hlast]
        exact List.mem_append_right _ List.mem_cons_self
      exact absurd (i.word.word _ hmem) (by decide)
  rw [heq, List.append_assoc, takeWhile_append_of_head hhead,
    List.takeWhile_eq_self_iff.mpr i.word.word]
  exact i.unreserved

-- Commas stand inside of type arguments only.
theorem isWhole_text (s : Spelling phrase) (h : phrase.isOutside = true) :
    isWhole 0 s.text = true := by
  induction s with
  | simple identifier => exact isWhole_of_word identifier.word.word
  | member outer before after word ih =>
    refine isWhole_append (isWhole_append (ih rfl) (isWhole_blanks before)) ?_
    have hmember := isWhole_append (isWhole_blanks after) (isWhole_of_word word.word)
    simpa [isWhole, opens, closes] using hmember
  | raw name ih => exact ih rfl
  | generic name before arguments ih =>
    exact isWhole_append (ih rfl) (isWhole_append (isWhole_blanks before)
      (isWhole_enclose (balanced_text arguments []) rfl ⟨rfl, rfl⟩))
  | _ => cases h

end Outside

section Spans

-- Texts that the reader of types takes as a whole.
def SpansType (xs : List Char) : Prop :=
  ∀ ys, spanType 0 (xs ++ ys) = (xs ++ (spanType 0 ys).1, (spanType 0 ys).2)

theorem SpansType.append (hxs : SpansType xs) (hys : SpansType ys) : SpansType (xs ++ ys) := by
  intro zs
  rw [List.append_assoc, hxs, hys, List.append_assoc]

theorem SpansType.nil : SpansType [] := fun _ => rfl

theorem spansType_word (h : ∀ c ∈ xs, isWordChar c = true) : SpansType xs := by
  induction xs with
  | nil => exact .nil
  | cons c xs ih =>
    intro ys
    have hc := h c List.mem_cons_self
    have hangle := ne_of_isWordChar hc '<' (by decide)
    have hangle' := ne_of_isWordChar hc '>' (by decide)
    have hdot := ne_of_isWordChar hc '.' (by decide)
    have hdepth : angleDepth 0 [c] = 0 := by simp [angleDepth, hangle, hangle']
    rw [List.cons_append, spanType_cons, if_neg, if_pos, hdepth,
      ih fun d hd => h d (List.mem_cons_of_mem _ hd)]
    · rfl
    · simp [isTypeMark, hc]
    · simp [dots, List.isPrefixOf_cons_cons, Ne.symm hdot]

theorem spansType_member (w : Word) : SpansType ('.' :: w.chars) := by
  intro ys
  obtain ⟨c, cs, heq⟩ := List.exists_cons_of_ne_nil w.nonempty
  have hc : c ≠ '.' := ne_of_isWordChar (w.word c (heq ▸ List.mem_cons_self)) '.' (by decide)
  rw [List.cons_append, spanType_cons, if_neg, if_pos]
  · have hdepth : angleDepth 0 ['.'] = 0 := rfl
    rw [hdepth, spansType_word w.word]
    rfl
  · rfl
  · simp [dots, heq, List.isPrefixOf_cons_cons, Ne.symm hc]

-- Blanks are taken where type arguments come behind them.
theorem spansType_arguments (bs : Blanks) (hxs : Balanced xs) :
    SpansType (bs.chars ++ '<' :: (xs ++ ['>'])) := by
  have hangles : SpansType ('<' :: (xs ++ ['>'])) := by
    intro ys
    have hopen : angleDepth 0 ['<'] = 1 := rfl
    have hclose : angleDepth 1 ['>'] = 0 := rfl
    have hinside := spanType_inside Int.one_pos (hxs []) ('>' :: ys)
    simp only [List.count_nil, Int.ofNat_zero, Int.add_zero] at hinside
    rw [List.cons_append, List.append_assoc, spanType_cons, if_neg (by simp [dots]),
      if_pos (by rfl), hopen, List.singleton_append, hinside, spanType_cons,
      if_neg (by simp), if_pos (by rfl), hclose]
    simp
  obtain ⟨bs, hblanks⟩ := bs
  induction bs with
  | nil => exact hangles
  | cons b bs ih =>
    obtain ⟨hb, hbs⟩ := Bool.and_eq_true_iff.mp hblanks
    have hne := ne_of_isBlank hb
    intro ys
    have hdepth : angleDepth 0 [b] = 0 := by
      simp [angleDepth, hne '<' (by decide), hne '>' (by decide)]
    have hcontinues : continuesType
        (trimStart (b :: (bs ++ '<' :: (xs ++ ['>']) ++ ys))) = true := by
      have htrim := trimStart_blanks_append ⟨b :: bs, hblanks⟩ ('<' :: (xs ++ ['>']) ++ ys)
      rw [List.cons_append, ← List.append_assoc] at htrim
      rw [htrim, List.cons_append, trimStart_of_head (show isBlank '<' = false by decide)]
      rfl
    have hrest := ih hbs ys
    dsimp only at hrest ⊢
    rw [List.cons_append, List.cons_append, spanType_cons, if_neg, if_pos, hdepth, hrest]
    · rfl
    · rw [hb, hcontinues]
      simp
    · simp [dots, List.isPrefixOf_cons_cons, Ne.symm (hne '.' (by decide))]

-- The whole of a type is taken if no blank stands beside a dot.
theorem spansType_text (s : Spelling phrase) (h : phrase.isOutside = true) (hclose : s.Close) :
    SpansType s.text := by
  induction s with
  | simple identifier => exact spansType_word identifier.word.word
  | member outer before after word ih =>
    obtain ⟨houter, hbefore, hafter⟩ := hclose
    rw [Spelling.text, hbefore, hafter, List.append_nil]
    exact (ih rfl houter).append (spansType_member word)
  | raw name ih => exact ih rfl hclose
  | generic name before arguments ih =>
    exact (ih rfl hclose).append (spansType_arguments before (balanced_text arguments))
  | _ => cases h

end Spans

section Names

theorem isTypeName_word {complete : Bool} (h : ∀ c ∈ xs, isWordChar c = true)
    (hne : xs = [] → complete = true) :
    isTypeName 0 complete (xs ++ ys) = isTypeName 0 true ys := by
  induction xs generalizing complete with
  | nil => rw [hne rfl, List.nil_append]
  | cons c xs ih =>
    have hc := h c List.mem_cons_self
    rw [List.cons_append, isTypeName, if_pos rfl, if_neg (ne_of_isWordChar hc '<' (by decide)),
      if_neg (ne_of_isWordChar hc '.' (by decide)), hc,
      ih (fun d hd => h d (List.mem_cons_of_mem _ hd)) fun _ => rfl, Bool.true_and]

-- Without its blanks outside of type arguments it is the name of a type.
theorem isTypeName_flatten (s : Spelling phrase) (h : phrase.isOutside = true) (complete : Bool)
    (ys : List Char) :
    isTypeName 0 complete (s.flatten.text ++ ys) = isTypeName 0 true ys := by
  have hword (w : Word) (complete : Bool) (ys : List Char) :
      isTypeName 0 complete (w.chars ++ ys) = isTypeName 0 true ys :=
    isTypeName_word w.word fun hnil => absurd hnil w.nonempty
  induction s generalizing complete ys with
  | simple identifier => exact hword identifier.word complete ys
  | member outer before after word ih =>
    rw [Spelling.flatten, Spelling.text, List.append_nil, List.nil_append, List.append_assoc,
      ih rfl, List.cons_append, isTypeName, if_pos rfl, if_neg (by decide), if_pos rfl, hword,
      Bool.true_and]
  | raw name ih => exact ih rfl complete ys
  | generic name before arguments ih =>
    obtain ⟨complete', hinside⟩ := isTypeName_inside false
      (balanced_text arguments []) ('>' :: ys)
    rw [List.length_nil, Nat.zero_add] at hinside
    rw [Spelling.flatten, Spelling.text, List.nil_append, List.append_assoc, ih rfl,
      List.cons_append, List.append_assoc, isTypeName, if_pos rfl, if_pos rfl, Bool.true_and,
      List.singleton_append, hinside, isTypeName, if_neg (by decide), if_neg (by decide),
      if_pos (by decide)]
    simp
  | _ => cases h

end Names

section Lexemes

-- Where no word goes on, the lexemes of two texts are those of the one and those of the other.
theorem lexemes_append (h : ys.head?.any isTypeWord = false) :
    lexemes (xs ++ ys) = lexemes xs ++ lexemes ys := by
  induction xs with
  | nil => rfl
  | cons c xs ih =>
    rw [List.cons_append]
    cases hc : isBlank c with
    | true => rw [lexemes_cons_blank hc, lexemes_cons_blank hc, ih]
    | false =>
      have hhead : (xs ++ ys).head?.any isTypeWord = xs.head?.any isTypeWord := by
        cases xs with
        | nil => exact h
        | cons d xs => rfl
      by_cases hword : (isTypeWord c && xs.head?.any isTypeWord) = true
      case pos =>
        obtain ⟨hcword, hxs⟩ := Bool.and_eq_true_iff.mp hword
        obtain ⟨first, others, heq, -, hcons⟩ := lexemes_cons_word hcword hxs
        obtain ⟨first', others', heq', -, hcons'⟩ := lexemes_cons_word hcword (hhead ▸ hxs)
        rw [ih, heq, List.cons_append] at heq'
        obtain ⟨rfl, rfl⟩ := List.cons.inj heq'
        rw [hcons, hcons', List.cons_append]
      case neg =>
        rw [Bool.not_eq_true] at hword
        rw [lexemes_cons_apart hc hword, lexemes_cons_apart hc (hhead ▸ hword), ih,
          List.cons_append]

theorem lexemes_mark (hblank : isBlank c = false) (hword : isTypeWord c = false) (xs ys : List Char) :
    lexemes (xs ++ c :: ys) = lexemes xs ++ [c] :: lexemes ys := by
  rw [lexemes_append (by simpa using hword), lexemes_cons_apart hblank (by simp [hword])]

theorem isTypeWord_of_isBlank (h : isBlank c = true) : isTypeWord c = false := by
  cases hword : isTypeWord c with
  | false => rfl
  | true => rw [isBlank_eq_false_of_isTypeWord hword] at h; cases h

namespace Blanks

variable (bs : Blanks)

theorem lexemes_append (xs : List Char) : lexemes (bs.chars ++ xs) = lexemes xs := by
  obtain ⟨bs, hbs⟩ := bs
  induction bs with
  | nil => rfl
  | cons b bs ih =>
    obtain ⟨hb, hbs⟩ := Bool.and_eq_true_iff.mp hbs
    exact (lexemes_cons_blank hb).trans (ih hbs)

theorem lexemes_between (hne : bs.chars ≠ []) (xs ys : List Char) :
    lexemes (xs ++ (bs.chars ++ ys)) = lexemes xs ++ lexemes ys := by
  rw [Signature.lexemes_append, bs.lexemes_append]
  obtain ⟨bs, hbs⟩ := bs
  cases bs with
  | nil => exact absurd rfl hne
  | cons b bs => simpa using isTypeWord_of_isBlank (Bool.and_eq_true_iff.mp hbs).left

theorem append_lexemes (xs : List Char) : lexemes (xs ++ bs.chars) = lexemes xs := by
  by_cases hne : bs.chars = []
  case pos => rw [hne, List.append_nil]
  case neg => simpa [lexemes] using bs.lexemes_between hne xs []

end Blanks

theorem lexemes_flatten (s : Spelling phrase) : lexemes s.flatten.text = lexemes s.text := by
  have hdot : isBlank '.' = false ∧ isTypeWord '.' = false := by decide
  have hangle : isBlank '<' = false ∧ isTypeWord '<' = false := by decide
  induction s with
  | member outer before after word ih =>
    rw [Spelling.flatten, Spelling.text, Spelling.text, List.append_nil, List.nil_append,
      lexemes_mark hdot.left hdot.right, lexemes_mark hdot.left hdot.right, ih,
      before.append_lexemes, after.lexemes_append]
  | raw name ih => exact ih
  | generic name before arguments ih =>
    rw [Spelling.flatten, Spelling.text, Spelling.text, List.nil_append, ← List.append_assoc,
      lexemes_mark hangle.left hangle.right, lexemes_mark hangle.left hangle.right, ih,
      before.append_lexemes]
  | _ => rfl

-- The tokens are those of the printed phrase.
theorem lexemes_text (s : Spelling phrase) (h : s.Apart) : lexemes s.text = lexemes s.print := by
  have hdot : isBlank '.' = false ∧ isTypeWord '.' = false := by decide
  have hangle : isBlank '<' = false ∧ isTypeWord '<' = false := by decide
  have hangle' : isBlank '>' = false ∧ isTypeWord '>' = false := by decide
  have hbracket : isBlank '[' = false ∧ isTypeWord '[' = false := by decide
  have hcomma : isBlank ',' = false ∧ isTypeWord ',' = false := by decide
  let space' : Blanks := ⟨[' '], by decide⟩
  induction s with
  | simple identifier => rfl
  | member outer before after word ih =>
    rw [Spelling.text, Spelling.print, lexemes_mark hdot.left hdot.right,
      lexemes_mark hdot.left hdot.right, before.append_lexemes, after.lexemes_append, ih h]
  | raw name ih => exact ih h
  | generic name before arguments ih ihArguments =>
    rw [Spelling.text, Spelling.print, ← List.append_assoc, lexemes_mark hangle.left hangle.right,
      lexemes_mark hangle.left hangle.right, lexemes_mark hangle'.left hangle'.right,
      lexemes_mark hangle'.left hangle'.right, before.append_lexemes, ih h.left,
      ihArguments h.right]
  | plain type ih => exact ih h
  | array element pair ih =>
    rw [Spelling.text, Spelling.print, Pair.text, ← List.append_assoc,
      lexemes_mark hbracket.left hbracket.right, lexemes_mark hbracket.left hbracket.right,
      pair.before.append_lexemes, pair.inside.lexemes_append, ih h]
  | exact before element after ih =>
    rw [Spelling.text, Spelling.print, after.append_lexemes, before.lexemes_append, ih h]
  | wildcard before after =>
    rw [Spelling.text, Spelling.print, before.lexemes_append]
    exact after.append_lexemes ['?']
  | bounded before gap bound space spaced element after ih =>
    obtain ⟨hgap, helement⟩ := h
    have htext := gap.lexemes_between hgap ['?']
      (bound.word.chars ++ (space.chars ++ (element.text ++ after.chars)))
    have hprint := space'.lexemes_between (List.cons_ne_nil _ _) ['?']
      (bound.word.chars ++ (space'.chars ++ element.print))
    rw [space.lexemes_between spaced, after.append_lexemes, ih helement] at htext
    rw [space'.lexemes_between (List.cons_ne_nil _ _) bound.word.chars] at hprint
    rw [Spelling.text, before.lexemes_append]
    exact htext.trans hprint.symm
  | single argument ih => exact ih h
  | more argument others ih ihOthers =>
    rw [Spelling.text, Spelling.print, lexemes_mark hcomma.left hcomma.right,
      lexemes_mark hcomma.left hcomma.right, ih h.left, ihOthers h.right]

theorem isTight_word_space (worded : Bool) (w : Word) (hhead : ys.head?.any isTypeWord = true)
    (hys : isTight false ys = true) : isTight worded (w.chars ++ ' ' :: ys) = true := by
  have hspace : isBlank ' ' = true := by decide
  obtain ⟨xs, hxs, hword⟩ := w
  dsimp only
  induction xs generalizing worded with
  | nil => exact absurd rfl hxs
  | cons c xs ih =>
    have hc := hword c List.mem_cons_self
    rw [List.cons_append, isTight_cons (isBlank_eq_false_of_isWordChar hc)]
    cases xs with
    | nil => simp [isTight, hspace, isTypeWord, hc, hhead, hys]
    | cons d xs => exact ih _ (List.cons_ne_nil d xs) fun e he => hword e (List.mem_cons_of_mem _ he)

theorem head_append_typeWord (h : xs.head?.any isTypeWord = true) (ys : List Char) :
    (xs ++ ys).head?.any isTypeWord = true := by
  cases xs with
  | nil => cases h
  | cons c xs => exact h

theorem Word.head (w : Word) : w.chars.head?.any isTypeWord = true := by
  obtain ⟨c, rest, heq, hc⟩ := w.startsWord
  simp [heq, isTypeWord, hc]

theorem head_print (s : Spelling phrase) : s.print.head?.any isTypeWord = true := by
  have hany : isTypeWord '?' = true := by decide
  induction s with
  | simple identifier => exact identifier.word.head
  | member outer _ _ word ih => exact head_append_typeWord ih _
  | raw name ih => exact ih
  | generic name _ arguments ih _ => exact head_append_typeWord ih _
  | plain type ih => exact ih
  | array element _ ih => exact head_append_typeWord ih _
  | exact _ element _ ih => exact ih
  | wildcard _ _ => simp [Spelling.print, hany]
  | bounded _ _ bound _ _ element _ _ => simp [Spelling.print, hany]
  | single argument ih => exact ih
  | more argument others ih _ => exact head_append_typeWord ih _

theorem isTight_mark (hblank : isBlank c = false) (h : isTight false xs = true) :
    isTight false (c :: xs) = true := by
  rw [isTight_cons hblank]
  exact isTight_of_isTight_false h _

-- Nothing is superfluous in the printed phrase.
theorem isTight_print (s : Spelling phrase) : isTight false s.print = true := by
  have hword (w : Word) : isTight false w.chars = true :=
    isTight_of_no_blank fun c hc => isBlank_eq_false_of_isWordChar (w.word c hc)
  induction s with
  | simple identifier => exact hword identifier.word
  | member outer _ _ word ih =>
    exact isTight_append ih (isTight_mark (by decide) (hword word))
  | raw name ih => exact ih
  | generic name _ arguments ih ihArguments =>
    exact isTight_append ih (isTight_mark (by decide) (isTight_append ihArguments (by decide)))
  | plain type ih => exact ih
  | array element _ ih => exact isTight_append ih (by decide)
  | exact _ element _ ih => exact ih
  | wildcard _ _ => exact (by decide : isTight false ['?'] = true)
  | bounded _ _ bound _ _ element _ ih =>
    have hspaced := isTight_word_space false bound.word (head_print element) ih
    have hhead := head_append_typeWord bound.word.head (' ' :: element.print)
    have hany : isBlank '?' = false ∧ isTypeWord '?' = true ∧ isBlank ' ' = true := by decide
    rw [Spelling.print, isTight_cons hany.left, isTight, if_pos hany.right.right, hspaced, hhead,
      hany.right.left]
    rfl
  | single argument ih => exact ih
  | more argument others ih ihOthers =>
    exact isTight_append ih (isTight_mark (by decide) ihOthers)

theorem collapseBlanks_text (s : Spelling phrase) (h : s.Apart) :
    collapseBlanks none false s.text = s.print := by
  rw [(collapseBlanks_eq_iff _ _).mpr (lexemes_text s h)]
  exact (collapseBlanks_of_isTight none s.print).left (isTight_print s)

end Lexemes

end ClassSplit.Signature
