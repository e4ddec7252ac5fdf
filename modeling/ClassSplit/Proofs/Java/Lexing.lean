import ClassSplit.Delegation.Reference
import ClassSplit.Proofs.Java.Lexer
import ClassSplit.Proofs.Java.Number
import Mathlib.Algebra.GroupWithZero.Nat

/-!
Texts outside of strings, step by step. A word, a number, a mark or a comment is found again in
front of other text, if that does not go on what it begins.
-/

namespace ClassSplit.Java

open LexStep

variable {frames frames' : List Frame} {cs r r' w tail : List Char} {c : Char} {kind : Kind}
  {step : LexStep}

-- What a step outside of strings can be.
inductive CodeStep (frames : List Frame) (cs : List Char) : LexStep → Prop
  | lineComment {tail : List Char} (h : cs = '/' :: '/' :: tail) :
    CodeStep frames cs (upTo (.comment .lineComment) (tail.dropWhile (· != '\n')) cs frames)
  | blockComment {tail rest : List Char} (h : cs = '/' :: '*' :: tail)
    (hrest : afterBlockComment? tail = some rest) :
    CodeStep frames cs (upTo (.comment .blockComment) rest cs frames)
  | quote {word : String} {frame : Frame} (h : cs.head? = some '"') (hword : word ∈ ["\"", "\"\"\""]) :
    CodeStep frames cs (LexStep.mark word cs (frame :: frames))
  | character {tail rest : List Char} (h : cs = '\'' :: tail)
    (hrest : afterCharLiteral? false tail = some rest) :
    CodeStep frames cs (upTo (.token .characterLiteral) rest cs frames)
  | gap {c : Char} {tail : List Char} (h : cs = c :: tail) (hc : isGap c = true) :
    CodeStep frames cs (upTo .gap (tail.dropWhile isGap) cs frames)
  | identifier {c : Char} {tail : List Char} (h : cs = c :: tail) (hc : isIdentifierStart c = true) :
    CodeStep frames cs (upTo (.token .identifier) (tail.dropWhile isIdentifierPart) cs frames)
  | number {kind : Kind} {rest : List Char} (h : Number.scan? cs = some (kind, rest)) :
    CodeStep frames cs (upTo (.token kind) rest cs frames)
  | mark {c : Char} {tail word : List Char} (h : cs = c :: tail) (hword : mark? cs = some word) :
    CodeStep frames cs (LexStep.mark (String.ofList word) cs (framesAfter c frames))

theorem codeStep_of_stepInCode (h : stepInCode frames cs = some step) : CodeStep frames cs step := by
  unfold stepInCode at h
  extract_lets comment? at h
  have hcomment : ∀ found, comment? = some found → CodeStep frames cs found := by
    intro found hfound
    simp only [comment?] at hfound
    split at hfound
    case h_1 tail =>
      cases hfound
      exact .lineComment rfl
    case h_2 tail =>
      obtain ⟨rest, hrest, rfl⟩ := Option.map_eq_some_iff.mp hfound
      exact .blockComment rfl hrest
    case h_3 => cases hfound
  clear_value comment?
  split at h
  case h_1 found =>
    cases h
    exact hcomment _ rfl
  case h_2 tail =>
    cases h
    exact .quote rfl (by simp)
  case h_3 tail hquotes =>
    cases h
    exact .quote rfl (by simp)
  case h_4 tail =>
    obtain ⟨rest, hrest, rfl⟩ := Option.map_eq_some_iff.mp h
    exact .character rfl hrest
  case h_5 c tail hquotes hquote hchar =>
    split at h
    case isTrue hgap =>
      cases h
      exact .gap rfl hgap
    case isFalse =>
      split at h
      case isTrue hstart =>
        cases h
        exact .identifier rfl hstart
      case isFalse =>
        split at h
        case h_1 kind rest hscan =>
          cases h
          exact .number hscan
        case h_2 =>
          obtain ⟨word, hword, rfl⟩ := Option.map_eq_some_iff.mp h
          exact .mark rfl hword
  case h_6 => cases h

-- The steps that a character begins which begins neither a comment nor a string.
theorem stepInCode_cons (hcomment : c ≠ '/' ∨ ∀ d ∈ tail.head?, d ≠ '/' ∧ d ≠ '*') (hquote : c ≠ '"')
    (hcharacter : c ≠ '\'') : stepInCode frames (c :: tail) =
      if isGap c then some (upTo .gap (tail.dropWhile isGap) (c :: tail) frames)
      else if isIdentifierStart c then
        some (upTo (.token .identifier) (tail.dropWhile isIdentifierPart) (c :: tail) frames)
      else
        match Number.scan? (c :: tail) with
        | some (kind, rest) => some (upTo (.token kind) rest (c :: tail) frames)
        | none =>
          (mark? (c :: tail)).map fun text =>
            LexStep.mark (String.ofList text) (c :: tail) (framesAfter c frames) := by
  unfold stepInCode
  extract_lets comment?
  have hnone : comment? = none := by
    simp only [comment?]
    split
    case h_1 tail' heq =>
      obtain ⟨rfl, rfl⟩ := List.cons.inj heq
      simp at hcomment
    case h_2 tail' heq =>
      obtain ⟨rfl, rfl⟩ := List.cons.inj heq
      simp at hcomment
    case h_3 => rfl
  rw [hnone]
  split
  case h_1 heq => cases heq
  case h_2 heq => exact absurd (List.cons.inj heq).left hquote
  case h_3 heq => exact absurd (List.cons.inj heq).left hquote
  case h_4 heq => exact absurd (List.cons.inj heq).left hcharacter
  case h_5 c' tail' heq =>
    obtain ⟨rfl, rfl⟩ := List.cons.inj heq
    rfl
  case h_6 heq => cases heq

section Mark

open Number Pattern

theorem Number.scan?_of_ne (hdigit : c.isDigit = false)
    (hdot : c = '.' → ∀ d ∈ tail.head?, d.isDigit = false) : scan? (c :: tail) = none := by
  have hzero : c ≠ '0' := by
    rintro rfl
    cases hdigit
  have hgroups : ∀ separator, groups Char.isDigit separator (c :: tail) = [] := by
    simp [groups, groups.go, some1, hdigit]
  have hfraction : c = '.' → groups Char.isDigit underscore tail = [] := by
    intro hc
    cases tail with
    | nil => rfl
    | cons d tail => simp [groups, groups.go, some1, hdot hc d rfl]
  have hnone : ∀ form ∈ forms, form.2 (c :: tail) = [] := by
    simp [forms, decimalInteger, hexInteger, octalInteger, binaryInteger, decimalFloat, hexFloat,
      seq, alt, digits, hexMark, char, one, hzero, hdigit, decimalDigits, hgroups]
    intro hc
    simp [hfraction hc]
  cases hscan : scan? (c :: tail) with
  | none => rfl
  | some found =>
    obtain ⟨p, hp, hlongest⟩ := exists_form_of_scan? hscan
    have hmem := mem_of_longest? hlongest
    have hnothing : p (c :: tail) = [] := hnone _ hp
    rw [hnothing] at hmem
    cases hmem

-- The characters that can go on what a mark begins, besides slashes.
def gluing : List Char := "=+-*<>&|:.".toList

-- No character of a mark begins a word or a number.
theorem apart_of_mem_gluing {c : Char} (h : c ∈ gluing) :
    isIdentifierStart c = false ∧ c.isDigit = false := by
  have hall : gluing.all (fun c => !isIdentifierStart c && !c.isDigit) = true := by decide +kernel
  simpa using List.all_eq_true.mp hall c h

-- The marks of calls, blocks, operators, steps and assignments: those that nothing goes on, and the
-- others.
def brackets : List String := ["(", ")", ";", "\x7b", "\x7d", ">"]

def signs : List String :=
  ["+", "-", "*", "/", "%", "<<", "&", "|", "^", ".", "=", "++", "--"]

-- A long mark that begins in a mark is the mark, or what follows goes the mark on.
theorem eq_of_mem_longMarks {word : String} (h : word ∈ brackets ++ signs)
    (hr : word ∈ signs → ∀ c ∈ r.head?, c ∉ gluing) {m : List Char} (hm : m ∈ longMarks)
    (hbegins : m <+: word.toList ++ r) : m = word.toList := by
  have hwithin : ∀ word ∈ brackets ++ signs, ∀ m ∈ longMarks, m.isPrefixOf word.toList = true →
      m = word.toList := by decide +kernel
  have hbeyond : ∀ word ∈ brackets ++ signs, ∀ m ∈ longMarks, word.toList.isPrefixOf m = true →
      (m.drop word.toList.length).head?.all (fun c => word ∈ signs && c ∈ gluing) = true := by
    decide +kernel
  obtain hlt | hle := Nat.lt_or_ge word.toList.length m.length
  case inr =>
    have hprefix := List.prefix_of_prefix_length_le hbegins (List.prefix_append _ r) hle
    exact hwithin word h m hm (List.isPrefixOf_iff_prefix.mpr hprefix)
  case inl =>
    have hprefix := List.prefix_of_prefix_length_le (List.prefix_append _ r) hbegins
      (Nat.le_of_lt hlt)
    have hall := hbeyond word h m hm (List.isPrefixOf_iff_prefix.mpr hprefix)
    obtain ⟨t, rfl⟩ := hprefix
    rw [List.drop_left] at hall
    cases t with
    | nil => simp at hlt
    | cons c t =>
      simp only [List.head?_cons, Option.all_some, Bool.and_eq_true, decide_eq_true_eq] at hall
      obtain ⟨t', ht'⟩ := hbegins
      rw [List.append_assoc] at ht'
      have hr' := List.append_cancel_left ht'
      exact absurd hall.right (hr hall.left c (by rw [← hr']; rfl))

theorem mark?_append {word : String} (h : word ∈ brackets ++ signs)
    (hr : word ∈ signs → ∀ c ∈ r.head?, c ∉ gluing) :
    mark? (word.toList ++ r) = some word.toList := by
  have hshort : ∀ word ∈ brackets ++ signs, word.toList ∈ longMarks ∨
      shortMarks.any (word.toList == [·]) = true := by decide +kernel
  unfold mark?
  split
  case h_1 m hfind =>
    have hbegins := List.find?_some hfind
    rw [eq_of_mem_longMarks h hr (List.mem_of_find?_eq_some hfind)
      (List.isPrefixOf_iff_prefix.mp hbegins)]
  case h_2 hfind =>
    obtain hmem | hmem := hshort word h
    · have hnot := List.find?_eq_none.mp hfind _ hmem
      simp at hnot
    · obtain ⟨c, hc, hword⟩ := List.any_eq_true.mp hmem
      rw [beq_iff_eq] at hword
      simp [hword, hc]

-- A mark is found in front of what does not go it on.
theorem stepInCode_mark {word : String} (h : word ∈ brackets ++ signs)
    (hr : word ∈ signs → ∀ c ∈ r.head?, c ∉ gluing) (hslash : word = "/" → r.head? ≠ some '/')
    (hdot : word = "." → ∀ c ∈ r.head?, c.isDigit = false) :
    stepInCode [] (word.toList ++ r) = some ⟨.token (.token word), word.toList, r, []⟩ := by
  have hfirst : ∀ word ∈ brackets ++ signs, word.toList.head?.any (fun c =>
      c != '"' && c != '\'' && !isGap c && !isIdentifierStart c && !c.isDigit
        && (c != '/' || word == "/") && (c != '.' || word == ".")) = true := by
    decide +kernel
  obtain ⟨c, t, hword⟩ : ∃ c t, word.toList = c :: t := by
    cases hword : word.toList with
    | nil =>
      have := hfirst word h
      simp [hword] at this
    | cons c t => exact ⟨c, t, rfl⟩
  have hc := hfirst word h
  simp only [hword, List.head?_cons, Option.any_some, Bool.and_eq_true, Bool.or_eq_true,
    Bool.not_eq_true', bne_iff_ne, beq_iff_eq] at hc
  obtain ⟨⟨⟨⟨⟨⟨hquote, hcharacter⟩, hgap⟩, hstart⟩, hdigit⟩, hslash'⟩, hdot'⟩ := hc
  have hmark := mark?_append h hr
  have htail : ∀ one : String, one.toList.length = 1 → word = one → t = [] := by
    rintro one hone rfl
    rw [hword] at hone
    simpa using hone
  rw [hword, List.cons_append] at hmark ⊢
  rw [stepInCode_cons ?comment hquote hcharacter, if_neg (by simp [hgap]), if_neg (by simp [hstart]),
    Number.scan?_of_ne hdigit ?dot, hmark]
  case comment =>
    obtain hne | rfl := hslash'
    · exact .inl hne
    · refine .inr fun d hd => ?_
      rw [htail "/" (by decide) rfl, List.nil_append] at hd
      have hgluing := hr (by decide) d hd
      refine ⟨?_, ?_⟩
      · rintro rfl
        exact hslash rfl hd
      · rintro rfl
        exact hgluing (by decide)
  case dot =>
    rintro rfl d hd
    obtain rfl := hdot'.resolve_left (by simp)
    rw [htail "." (by decide) rfl, List.nil_append] at hd
    exact hdot rfl d hd
  have hwhole : word = String.ofList (c :: t) := by rw [← hword, String.ofList_toList]
  simp [LexStep.mark, take, framesAfter, hwhole]

end Mark

section Word

-- A letter and characters that go on what it begins.
def SpellsIdentifier (w : List Char) : Prop :=
  ∃ c v, w = c :: v ∧ isIdentifierStart c = true ∧ ∀ d ∈ v, isIdentifierPart d = true

theorem ne_of_isIdentifierStart {c : Char} (h : isIdentifierStart c = true) (d : Char)
    (hd : isIdentifierStart d = false) : c ≠ d := by
  rintro rfl
  rw [h] at hd
  cases hd

theorem isGap_of_isIdentifierStart (h : isIdentifierStart c = true) : isGap c = false := by
  have hne := ne_of_isIdentifierStart h
  simp [isGap, hne ' ' (by decide +kernel), hne '\t' (by decide +kernel),
    hne '\r' (by decide +kernel), hne '\n' (by decide +kernel)]

theorem dropWhile_append {p : Char → Bool} {v : List Char} (hv : ∀ d ∈ v, p d = true)
    (hr : ∀ d ∈ r.head?, p d = false) : (v ++ r).dropWhile p = r := by
  rw [List.dropWhile_append_of_pos hv]
  cases r with
  | nil => rfl
  | cons d r => rw [List.dropWhile_cons_of_neg (by simp [hr d rfl])]

theorem stepInCode_word (h : SpellsIdentifier w) (hr : ∀ c ∈ r.head?, isIdentifierPart c = false) :
    stepInCode frames (w ++ r) = some ⟨.token .identifier, w, r, frames⟩ := by
  obtain ⟨c, v, rfl, hc, hv⟩ := h
  have hne := ne_of_isIdentifierStart hc
  rw [List.cons_append, stepInCode_cons (.inl (hne '/' (by decide +kernel)))
    (hne '"' (by decide +kernel)) (hne '\'' (by decide +kernel)),
    if_neg (by simp [isGap_of_isIdentifierStart hc]), if_pos hc, dropWhile_append hv hr,
    ← List.cons_append, upTo_eq]

-- What takes a word takes all of it.
theorem eq_of_upTo {lexeme lexeme' : Lexeme} {word rest : List Char}
    (h : upTo lexeme rest (word ++ rest) frames = ⟨lexeme', w, r, frames'⟩) :
    lexeme = lexeme' ∧ word = w ∧ rest = r ∧ frames = frames' := by
  rw [upTo_eq] at h
  cases h
  exact ⟨rfl, rfl, rfl, rfl⟩

theorem kind_of_scan? (h : Number.scan? cs = some (kind, r)) : kind ∈ Number.forms.map (·.1) := by
  obtain ⟨p, hp, -⟩ := Number.exists_form_of_scan? h
  exact List.mem_map_of_mem (f := (·.1)) hp

theorem isWord_of_stepInCode
    (h : stepInCode frames cs = some ⟨.token .identifier, w, r, frames'⟩) : SpellsIdentifier w := by
  generalize hstep : (⟨.token .identifier, w, r, frames'⟩ : LexStep) = step at h
  cases codeStep_of_stepInCode h with
  | @identifier c tail hcs hc =>
    have hsplit : cs = c :: tail.takeWhile isIdentifierPart ++ tail.dropWhile isIdentifierPart := by
      simp [hcs]
    rw [hsplit] at hstep
    obtain ⟨-, rfl, -⟩ := eq_of_upTo hstep.symm
    exact ⟨c, _, rfl, hc, fun d hd => List.all_eq_true.mp List.all_takeWhile d hd⟩
  | number hscan =>
    have hkind := kind_of_scan? hscan
    simp only [upTo, take, LexStep.mk.injEq, Lexeme.token.injEq] at hstep
    rw [← hstep.left] at hkind
    exact absurd hkind (by decide)
  | lineComment => simp [upTo, take] at hstep
  | blockComment => simp [upTo, take] at hstep
  | quote => simp [LexStep.mark, take] at hstep
  | character => simp [upTo, take] at hstep
  | gap => simp [upTo, take] at hstep
  | mark => simp [LexStep.mark, take] at hstep

end Word

section Literal

-- The text of an integer literal: it begins with a digit and has no sign.
structure IsNumeral (w : List Char) : Prop where
  begins : Number.BeginsWithDigit w
  unsigned : Number.Unsigned w

theorem isNumeral_of_scan? (h : Number.scan? (w ++ r) = some (kind, r))
    (hkind : isIntegerLiteralKind kind = true) : IsNumeral w := by
  obtain ⟨p, hp, hlongest⟩ := Number.exists_form_of_scan? h
  have hmem := Pattern.mem_of_longest? hlongest
  simp only [Number.forms, List.mem_cons, Prod.mk.injEq, List.not_mem_nil, or_false] at hp
  obtain ⟨-, rfl⟩ | ⟨-, rfl⟩ | ⟨-, rfl⟩ | ⟨-, rfl⟩ | ⟨rfl, -⟩ | ⟨rfl, -⟩ := hp
  case inr.inr.inr.inr.inl => cases hkind
  case inr.inr.inr.inr.inr => cases hkind
  all_goals exact ⟨Pattern.Words.word hmem, Pattern.Words.word hmem⟩

theorem isIdentifierStart_of_isDigit (h : c.isDigit = true) : isIdentifierStart c = false := by
  have hdigits : (List.range 10).all (fun n => !isIdentifierStart (Char.ofNat (48 + n))) = true := by
    decide +kernel
  have hcode : 48 ≤ c.toNat ∧ c.toNat ≤ 57 := by
    simp only [Char.isDigit, ge_iff_le, Bool.and_eq_true, decide_eq_true_eq] at h
    exact ⟨UInt32.le_iff_toNat_le.mp h.left, UInt32.le_iff_toNat_le.mp h.right⟩
  have hdigit := List.all_eq_true.mp hdigits (c.toNat - 48) (List.mem_range.mpr (by omega))
  rw [Nat.add_sub_cancel' hcode.left, Char.ofNat_toNat] at hdigit
  simpa using hdigit

theorem ne_of_isDigit {d : Char} (h : c.isDigit = true) (hd : d.isDigit = false) : c ≠ d := by
  rintro rfl
  rw [h] at hd
  cases hd

theorem stepInCode_number (h : Number.scan? (w ++ r) = some (kind, r)) (hw : IsNumeral w) :
    stepInCode frames (w ++ r) = some ⟨.token kind, w, r, frames⟩ := by
  obtain ⟨d, v, rfl, hd⟩ := hw.begins
  have hgap : isGap d = false := by
    simp [isGap, ne_of_isDigit hd (d := ' ') (by decide), ne_of_isDigit hd (d := '\t') (by decide),
      ne_of_isDigit hd (d := '\r') (by decide), ne_of_isDigit hd (d := '\n') (by decide)]
  rw [List.cons_append, stepInCode_cons (.inl (ne_of_isDigit hd (by decide)))
    (ne_of_isDigit hd (by decide)) (ne_of_isDigit hd (by decide)), if_neg (by simp [hgap]),
    if_neg (by simp [isIdentifierStart_of_isDigit hd]), ← List.cons_append, h]
  simp only [upTo_eq]

theorem scan?_of_stepInCode (h : stepInCode frames (w ++ r) = some ⟨.token kind, w, r, frames'⟩)
    (hkind : isIntegerLiteralKind kind = true) : Number.scan? (w ++ r) = some (kind, r) := by
  generalize hstep : (⟨.token kind, w, r, frames'⟩ : LexStep) = step at h
  generalize hcs : w ++ r = cs at h
  cases codeStep_of_stepInCode h with
  | @number kind' rest hscan =>
    obtain ⟨word, rfl, -⟩ := Number.scan?_spec hscan
    obtain ⟨hlexeme, -, rfl, -⟩ := eq_of_upTo hstep.symm
    cases hlexeme
    exact hscan
  | identifier =>
    simp only [upTo, take, LexStep.mk.injEq, Lexeme.token.injEq] at hstep
    rw [hstep.left] at hkind
    cases hkind
  | character =>
    simp only [upTo, take, LexStep.mk.injEq, Lexeme.token.injEq] at hstep
    rw [hstep.left] at hkind
    cases hkind
  | quote =>
    simp only [LexStep.mark, take, LexStep.mk.injEq, Lexeme.token.injEq] at hstep
    rw [hstep.left] at hkind
    cases hkind
  | mark =>
    simp only [LexStep.mark, take, LexStep.mk.injEq, Lexeme.token.injEq] at hstep
    rw [hstep.left] at hkind
    cases hkind
  | lineComment => simp [upTo, take] at hstep
  | blockComment => simp [upTo, take] at hstep
  | gap => simp [upTo, take] at hstep

end Literal

section Comment

-- Where a block comment ends does not depend on what follows it.
theorem afterBlockComment?_append {u : List Char} (h : afterBlockComment? (u ++ r) = some r)
    (r' : List Char) : afterBlockComment? (u ++ r') = some r' := by
  induction u with
  | nil =>
    obtain ⟨word, heq⟩ := afterBlockComment?_spec h
    have := congrArg List.length heq
    simp at this
    omega
  | cons c u ih =>
    cases u with
    | nil =>
      obtain ⟨word, heq⟩ := afterBlockComment?_spec h
      have := congrArg List.length heq
      simp at this
      omega
    | cons d u =>
      by_cases hend : c = '*' ∧ d = '/'
      case pos =>
        obtain ⟨rfl, rfl⟩ := hend
        have hnil : u = [] := by simpa [afterBlockComment?] using h
        simp [hnil, afterBlockComment?]
      case neg =>
        have hgo : ∀ cs, afterBlockComment? (c :: d :: cs) = afterBlockComment? (d :: cs) := by
          intro cs
          refine afterBlockComment?.eq_2 _ _ fun x hc hd => hend ⟨hc, (List.cons.inj hd).left⟩
        rw [List.cons_append, List.cons_append, hgo] at h ⊢
        exact ih h

-- The text of a comment.
inductive IsComment : Kind → List Char → Prop
  | line {u : List Char} (h : '\n' ∉ u) : IsComment .lineComment ('/' :: '/' :: u)
  | block {u : List Char} (h : ∀ r, afterBlockComment? (u ++ r) = some r) :
    IsComment .blockComment ('/' :: '*' :: u)

-- A comment is found in front of any text, but the end of a line has to follow one of a line.
theorem stepInCode_comment (h : IsComment kind w)
    (hr : kind = .lineComment → ∀ c ∈ r.head?, c = '\n') :
    stepInCode frames (w ++ r) = some ⟨.comment kind, w, r, frames⟩ := by
  cases h with
  | @line u hu =>
    have hdrop : (u ++ r).dropWhile (· != '\n') = r := by
      refine dropWhile_append ?_ ?_
      · intro d hd
        exact bne_iff_ne.mpr fun heq => hu (heq ▸ hd)
      · intro d hd
        simp [hr rfl d hd]
    have hstep : stepInCode frames ('/' :: '/' :: (u ++ r)) =
        some (upTo (.comment .lineComment) ((u ++ r).dropWhile (· != '\n'))
          ('/' :: '/' :: (u ++ r)) frames) := rfl
    rw [List.cons_append, List.cons_append, hstep, hdrop, ← List.cons_append, ← List.cons_append,
      upTo_eq]
  | @block u hu =>
    have hstep : stepInCode frames ('/' :: '*' :: (u ++ r)) =
        some (upTo (.comment .blockComment) r ('/' :: '*' :: (u ++ r)) frames) := by
      simp [stepInCode, hu r]
    rw [List.cons_append, List.cons_append, hstep, ← List.cons_append, ← List.cons_append, upTo_eq]

theorem isComment_of_stepInCode
    (h : stepInCode frames (w ++ r) = some ⟨.comment kind, w, r, frames'⟩) :
    IsComment kind w ∧ (kind = .lineComment → ∀ c ∈ r.head?, c = '\n') := by
  generalize hstep : (⟨.comment kind, w, r, frames'⟩ : LexStep) = step at h
  generalize hcs : w ++ r = cs at h
  cases codeStep_of_stepInCode h with
  | @lineComment tail htail =>
    have hsplit : cs = '/' :: '/' :: tail.takeWhile (· != '\n') ++ tail.dropWhile (· != '\n') := by
      simp [htail]
    rw [hsplit] at hstep
    obtain ⟨hlexeme, rfl, rfl, -⟩ := eq_of_upTo hstep.symm
    cases hlexeme
    refine ⟨.line fun hmem => ?_, fun _ c hc => ?_⟩
    · have := List.all_eq_true.mp List.all_takeWhile _ hmem
      simp at this
    · have hfirst := List.head?_dropWhile_not (· != '\n') tail
      rw [Option.mem_def.mp hc] at hfirst
      simpa using hfirst
  | @blockComment tail rest htail hrest =>
    obtain ⟨word, heq⟩ := afterBlockComment?_spec hrest
    have hsplit : cs = '/' :: '*' :: (word ++ ['*', '/']) ++ rest := by simp [htail, heq]
    rw [hsplit] at hstep
    obtain ⟨hlexeme, rfl, rfl, -⟩ := eq_of_upTo hstep.symm
    cases hlexeme
    refine ⟨.block (afterBlockComment?_append (r := rest) ?_), nofun⟩
    rw [List.append_assoc]
    exact heq ▸ hrest
  | identifier => simp [upTo, take] at hstep
  | number => simp [upTo, take] at hstep
  | quote => simp [LexStep.mark, take] at hstep
  | character => simp [upTo, take] at hstep
  | gap => simp [upTo, take] at hstep
  | mark => simp [LexStep.mark, take] at hstep

end Comment

theorem stepInCode_gap (hne : w ≠ []) (hw : ∀ c ∈ w, isGap c = true)
    (hr : ∀ c ∈ r.head?, isGap c = false) :
    stepInCode frames (w ++ r) = some ⟨.gap, w, r, frames⟩ := by
  cases w with
  | nil => exact absurd rfl hne
  | cons c w =>
    have hc := hw c List.mem_cons_self
    have hchars : c ≠ '/' ∧ c ≠ '"' ∧ c ≠ '\'' := by
      refine ⟨?_, ?_, ?_⟩
      all_goals
        rintro rfl
        cases hc
    rw [List.cons_append, stepInCode_cons (.inl hchars.left) hchars.right.left hchars.right.right,
      if_pos hc, dropWhile_append (fun d hd => hw d (List.mem_cons_of_mem c hd)) hr,
      ← List.cons_append, upTo_eq]

/-- A part of a text that one step of the lexer takes. -/
structure Found where
  lexeme : Lexeme
  word : List Char

-- A text outside of strings, in front of other text, is taken in these steps.
inductive Scans : List Char → List Found → List Char → Prop
  | nil (after : List Char) : Scans [] [] after
  | cons {lexeme : Lexeme} {word cs after : List Char} {found : List Found} (hne : word ≠ [])
    (hstep : stepInCode [] (word ++ (cs ++ after)) = some ⟨lexeme, word, cs ++ after, []⟩)
    (h : Scans cs found after) : Scans (word ++ cs) (⟨lexeme, word⟩ :: found) after

/-- The tokens and comments that some steps give from an offset on. -/
def lexedFrom : Nat → List Found → Lexed
  | _, [] => .empty
  | offset, f :: fs =>
    let stop := offset + Text.byteLength f.word
    (lexedFrom stop fs).add f.lexeme (String.ofList f.word) ⟨offset, stop⟩

/-- The tokens alone. -/
def tokensFrom (offset : Nat) (fs : List Found) : List Token := (lexedFrom offset fs).tokens

section Scans

variable {fs gs : List Found} {after : List Char} {lexeme : Lexeme} {offset : Nat}

theorem Scans.single (hne : w ≠ [])
    (hstep : stepInCode [] (w ++ after) = some ⟨lexeme, w, after, []⟩) :
    Scans w [⟨lexeme, w⟩] after := by
  have h : Scans (w ++ []) [⟨lexeme, w⟩] after := .cons hne hstep (.nil after)
  rwa [List.append_nil] at h

theorem Scans.append {cs' : List Char} (h : Scans cs fs (cs' ++ after)) (h' : Scans cs' gs after) :
    Scans (cs ++ cs') (fs ++ gs) after := by
  generalize hwhole : cs' ++ after = whole at h
  induction h with
  | nil => exact h'
  | cons hne hstep _ ih =>
    subst hwhole
    rw [List.append_assoc]
    exact .cons hne (by simpa using hstep) (ih rfl)

theorem Scans.byteLength (h : Scans cs fs after) :
    (fs.map fun f => Text.byteLength f.word).sum = Text.byteLength cs := by
  induction h with
  | nil => rfl
  | cons _ _ _ ih => simp [ih]

@[simp] theorem tokensFrom_nil (offset : Nat) : tokensFrom offset [] = [] := rfl

@[simp] theorem tokensFrom_token (offset : Nat) (kind : Kind) (w : List Char) (fs : List Found) :
    tokensFrom offset (⟨.token kind, w⟩ :: fs) =
      ⟨kind, String.ofList w, ⟨offset, offset + Text.byteLength w⟩⟩ ::
        tokensFrom (offset + Text.byteLength w) fs := rfl

@[simp] theorem tokensFrom_gap (offset : Nat) (w : List Char) (fs : List Found) :
    tokensFrom offset (⟨.gap, w⟩ :: fs) = tokensFrom (offset + Text.byteLength w) fs := rfl

@[simp] theorem tokensFrom_comment (offset : Nat) (kind : Kind) (w : List Char) (fs : List Found) :
    tokensFrom offset (⟨.comment kind, w⟩ :: fs) = tokensFrom (offset + Text.byteLength w) fs := rfl

theorem tokensFrom_append (offset : Nat) (fs gs : List Found) : tokensFrom offset (fs ++ gs) =
    tokensFrom offset fs ++
      tokensFrom (offset + (fs.map fun f => Text.byteLength f.word).sum) gs := by
  induction fs generalizing offset with
  | nil => simp
  | cons f fs ih =>
    obtain ⟨lexeme, w⟩ := f
    have hlater := ih (offset + Text.byteLength w)
    rw [Nat.add_assoc] at hlater
    cases lexeme with
    | gap => simpa using hlater
    | token kind => simpa using hlater
    | comment kind => simpa using hlater
    | silent => exact hlater

-- The lexer finds what the steps give.
theorem lexFrom_of_scans (h : Scans cs fs []) {n : Nat} (hn : cs.length ≤ n) (offset : Nat) :
    lexFrom n [] offset cs = some (lexedFrom offset fs) := by
  generalize hafter : ([] : List Char) = after at h
  induction h generalizing n offset with
  | nil =>
    cases n with
    | zero => rfl
    | succ n => rfl
  | @cons lexeme word cs after found hne hstep _ ih =>
    subst hafter
    cases word with
    | nil => exact absurd rfl hne
    | cons c word =>
      simp only [List.length_append, List.length_cons] at hn
      obtain ⟨n, rfl⟩ : ∃ n', n = n' + 1 := ⟨n - 1, by omega⟩
      simp only [List.append_nil] at hstep
      rw [List.cons_append] at hstep ⊢
      rw [lexFrom, lexStep?, hstep]
      simp only
      rw [ih (by omega) _ rfl]
      rfl

end Scans

end ClassSplit.Java
