import ClassSplit.Java.Lexer
import ClassSplit.Proofs.Java.Lexeme
import ClassSplit.Proofs.Text.InOrder

/-!
What the lexer finds stands in the text where it says, in order, and is solid unless it is a part
of a string.
-/

namespace ClassSplit.Java

open Text LexStep

-- The kinds of the parts of a string. They alone may begin or end with blanks.
@[reducible] def Kind.isStringPart : Kind → Bool
  | .stringFragment | .multilineStringFragment | .escapeSequence => true
  | _ => false

-- A word that is not empty and stands at a span of a text.
structure Spelled (text : List Char) (span : Span) (word : String) : Prop where
  fits : span.FitsIn text
  slice : Text.slice text span = word.toList
  nonempty : span.start < span.stop

structure Token.Sound (text : List Char) (t : Token) : Prop where
  spelled : Spelled text t.span t.text
  mark : ∀ word, t.kind = .token word → t.text = word
  solid : t.kind.isStringPart = false → Solid t.text.toList
  identifier : t.kind = .identifier → ∀ c ∈ t.text.toList, isIdentifierPart c = true

structure Comment.Sound (text : List Char) (c : Comment) : Prop where
  spelled : Spelled text c.span c.text
  kind : c.kind.isComment = true
  solid : Solid c.text.toList

-- What a word must be to be found as a lexeme.
def Lexeme.Fits (word : List Char) : Lexeme → Prop
  | .token kind =>
    word ≠ [] ∧ (∀ mark, kind = .token mark → mark.toList = word) ∧
      (kind.isStringPart = false → Solid word) ∧
        (kind = .identifier → ∀ c ∈ word, isIdentifierPart c = true)
  | .comment kind => kind.isComment = true ∧ Solid word
  | .gap | .silent => True

structure LexStep.Sound (cs : List Char) (step : LexStep) : Prop where
  split : step.text ++ step.rest = cs
  fits : step.lexeme.Fits step.text

namespace LexStep

variable {cs : List Char} {frames : List Frame}

theorem upTo_eq (lexeme : Lexeme) (word rest : List Char) :
    upTo lexeme rest (word ++ rest) frames = ⟨lexeme, word, rest, frames⟩ := by
  simp [upTo, take]

theorem sound_upTo {lexeme : Lexeme} {word rest : List Char} (hsplit : cs = word ++ rest)
    (h : lexeme.Fits word) : (upTo lexeme rest cs frames).Sound cs := by
  rw [hsplit, upTo_eq]
  exact ⟨rfl, h⟩

theorem sound_take {lexeme : Lexeme} {n : Nat} (h : lexeme.Fits (cs.take n)) :
    (take lexeme n cs frames).Sound cs :=
  ⟨List.take_append_drop n cs, h⟩

theorem sound_mark {text : String} (hbegins : text.toList <+: cs) (h : Solid text.toList) :
    (mark text cs frames).Sound cs := by
  have hword : cs.take text.length = text.toList := by
    rw [← String.length_toList]
    exact (List.prefix_iff_eq_take.mp hbegins).symm
  refine sound_take ⟨?_, ?_, ?_, nofun⟩
  · rw [hword]; exact h.ne_nil
  · intro mark heq
    rw [hword, Kind.token.inj heq]
  · intro _
    rw [hword]
    exact h

end LexStep

theorem afterQuoted_suffix (cs : List Char) : afterQuoted cs <:+ cs := by
  induction cs using afterQuoted.induct with
  | case1 cs ih =>
    rw [afterQuoted]
    exact (ih.trans (List.suffix_cons _ _)).trans (List.suffix_cons _ _)
  | case2 c cs hne h =>
    have hstop : afterQuoted (c :: cs) = c :: cs := by rw [afterQuoted.eq_2 _ _ hne, if_pos h]
    exact ⟨[], hstop⟩
  | case3 c cs hne h ih =>
    rw [afterQuoted.eq_2 _ _ hne, if_neg h]
    exact ih.trans (List.suffix_cons _ _)
  | case4 => exact List.suffix_refl _

-- The closing quote is the last character of the literal.
theorem afterCharLiteral?_spec {some? : Bool} {cs rest : List Char}
    (h : afterCharLiteral? some? cs = some rest) : ∃ word, cs = word ++ '\'' :: rest := by
  induction some?, cs using afterCharLiteral?.induct with
  | case1 some? c cs ih =>
    rw [afterCharLiteral?] at h
    obtain ⟨word, heq⟩ := ih h
    exact ⟨'\\' :: c :: word, by simp [heq]⟩
  | case2 cs =>
    rw [afterCharLiteral?, if_pos rfl, Option.some.injEq] at h
    exact ⟨[], by simp [h]⟩
  | case3 some? cs hnone =>
    rw [afterCharLiteral?, if_neg hnone] at h
    cases h
  | case4 some? c cs hescape hquote hend =>
    rw [afterCharLiteral?.eq_3 _ _ _ hescape hquote, if_pos hend] at h
    cases h
  | case5 some? c cs hescape hquote hend ih =>
    rw [afterCharLiteral?.eq_3 _ _ _ hescape hquote, if_neg hend] at h
    obtain ⟨word, heq⟩ := ih h
    exact ⟨c :: word, by simp [heq]⟩
  | case6 => cases h

theorem afterBlockComment?_spec {cs rest : List Char} (h : afterBlockComment? cs = some rest) :
    ∃ word, cs = word ++ '*' :: '/' :: rest := by
  induction cs using afterBlockComment?.induct with
  | case1 cs => exact ⟨[], by simpa [afterBlockComment?] using h⟩
  | case2 c cs hne ih =>
    rw [afterBlockComment?.eq_2 _ _ hne] at h
    obtain ⟨word, heq⟩ := ih h
    exact ⟨c :: word, by simp [heq]⟩
  | case3 => cases h

theorem fits_stringPart {kind : Kind} {word : List Char} (hkind : kind.isStringPart = true)
    (hword : word ≠ []) : (Lexeme.token kind).Fits word := by
  refine ⟨hword, ?_, ?_, ?_⟩
  · intro mark hmark
    subst hmark
    cases hkind
  · intro hpart
    rw [hkind] at hpart
    cases hpart
  · intro hidentifier
    subst hidentifier
    cases hkind

theorem sound_stepInString {frame : Frame} {frames : List Frame} {cs : List Char} {step : LexStep}
    (h : stepInString frame frames cs = some step) : step.Sound cs := by
  unfold stepInString at h
  extract_lets block at h
  clear_value block
  split at h
  case h_1 tail =>
    cases h
    refine sound_mark ?_ ?_
    · cases block <;> simp
    · cases block <;> exact .of_no_newline (by decide) (by decide)
  case h_2 tail hclosing =>
    split at h
    case isTrue =>
      cases h
      obtain ⟨word, hword⟩ := afterQuoted_suffix tail
      have hsplit : '"' :: tail = '"' :: word ++ afterQuoted tail := by simp [hword]
      exact sound_upTo hsplit (fits_stringPart rfl (by simp))
    case isFalse =>
      cases h
      exact sound_mark (by simp) (.of_no_newline (by decide) (by decide))
  case h_3 tail =>
    cases h
    exact sound_mark (by simp) (.of_no_newline (by decide) (by decide))
  case h_4 tail hbrace =>
    extract_lets own at h
    split at h
    case isTrue =>
      cases h
      exact sound_take trivial
    case isFalse =>
      obtain ⟨n, -, hn⟩ := Option.map_eq_some_iff.mp h
      subst hn
      exact sound_take (fits_stringPart rfl (by simp))
  case h_5 c tail hquotes hquote hbrace hbackslash =>
    cases h
    have hplain : isPlainInString c = true := by
      simp only [isPlainInString, Bool.and_eq_true, bne_iff_ne, ne_eq]
      exact ⟨hquote, hbackslash⟩
    have hsplit : c :: tail = (c :: tail).takeWhile isPlainInString ++
        (c :: tail).dropWhile isPlainInString := (List.takeWhile_append_dropWhile ..).symm
    refine sound_upTo hsplit (fits_stringPart ?_ ?_)
    · cases block <;> rfl
    · simp [hplain]
  case h_6 => cases h

theorem sound_lineComment {tail : List Char} {frames : List Frame} :
    (upTo (.comment .lineComment) (tail.dropWhile (· != '\n')) ('/' :: '/' :: tail) frames).Sound
      ('/' :: '/' :: tail) := by
  have hsplit : '/' :: '/' :: tail = '/' :: '/' :: tail.takeWhile (· != '\n') ++
      tail.dropWhile (· != '\n') := by
    simp
  refine sound_upTo hsplit ⟨rfl, .of_no_newline (by decide) ?_⟩
  simp only [List.mem_cons, not_or]
  refine ⟨by decide, by decide, ?_⟩
  intro hmem
  have := List.all_eq_true.mp List.all_takeWhile _ hmem
  simp at this

theorem sound_blockComment {tail rest : List Char} {frames : List Frame}
    (h : afterBlockComment? tail = some rest) :
    (upTo (.comment .blockComment) rest ('/' :: '*' :: tail) frames).Sound
      ('/' :: '*' :: tail) := by
  obtain ⟨word, heq⟩ := afterBlockComment?_spec h
  have hsplit : '/' :: '*' :: tail = '/' :: ('*' :: word ++ ['*']) ++ ['/'] ++ rest := by
    simp [heq]
  exact sound_upTo hsplit ⟨rfl, .of_last (by decide) (by decide)⟩

-- A token other than a mark, by its kind and its text.
theorem fits_token {kind : Kind} {word : List Char} (hkind : kind.isNamed = true)
    (h : Solid word) (hidentifier : kind = .identifier → ∀ c ∈ word, isIdentifierPart c = true) :
    (Lexeme.token kind).Fits word := by
  refine ⟨h.ne_nil, ?_, fun _ => h, hidentifier⟩
  intro mark hmark
  subst hmark
  cases hkind

theorem sound_stepInCode {frames : List Frame} {cs : List Char} {step : LexStep}
    (h : stepInCode frames cs = some step) : step.Sound cs := by
  unfold stepInCode at h
  extract_lets comment? at h
  have hcomment : ∀ found, comment? = some found → found.Sound cs := by
    intro found hfound
    simp only [comment?] at hfound
    split at hfound
    case h_1 tail =>
      cases hfound
      exact sound_lineComment
    case h_2 tail =>
      obtain ⟨rest, hrest, heq⟩ := Option.map_eq_some_iff.mp hfound
      subst heq
      exact sound_blockComment hrest
    case h_3 => cases hfound
  clear_value comment?
  split at h
  case h_1 found =>
    cases h
    exact hcomment _ rfl
  case h_2 tail =>
    cases h
    exact sound_mark (by simp) (.of_no_newline (by decide) (by decide))
  case h_3 tail hquotes =>
    cases h
    exact sound_mark (by simp) (.of_no_newline (by decide) (by decide))
  case h_4 tail =>
    obtain ⟨rest, hrest, heq⟩ := Option.map_eq_some_iff.mp h
    subst heq
    obtain ⟨word, hword⟩ := afterCharLiteral?_spec hrest
    have hsplit : '\'' :: tail = '\'' :: word ++ ['\''] ++ rest := by simp [hword]
    exact sound_upTo hsplit (fits_token rfl (.of_last (by decide) (by decide)) nofun)
  case h_5 c tail hquotes hquote hchar =>
    split at h
    case isTrue hgap =>
      cases h
      have hsplit : c :: tail = c :: tail.takeWhile isGap ++ tail.dropWhile isGap := by simp
      exact sound_upTo hsplit trivial
    case isFalse =>
      split at h
      case isTrue hstart =>
        cases h
        have hsplit : c :: tail = c :: tail.takeWhile isIdentifierPart ++
            tail.dropWhile isIdentifierPart := by simp
        have hparts : ∀ d ∈ c :: tail.takeWhile isIdentifierPart, isIdentifierPart d = true := by
          intro d hd
          obtain rfl | hd := List.mem_cons.mp hd
          · simp [isIdentifierPart, hstart]
          · exact List.all_eq_true.mp List.all_takeWhile d hd
        exact sound_upTo hsplit (fits_token rfl (solid_identifier tail hstart) fun _ => hparts)
      case isFalse =>
        split at h
        case h_1 kind rest hscan =>
          cases h
          obtain ⟨word, hword, hsolid, p, hform⟩ := Number.scan?_spec hscan
          have hkind : ∀ form ∈ Number.forms, form.1.isNamed = true ∧ form.1 ≠ .identifier := by
            decide
          obtain ⟨hnamed, hnumber⟩ := hkind _ hform
          exact sound_upTo hword (fits_token hnamed hsolid fun h => absurd h hnumber)
        case h_2 =>
          obtain ⟨word, hword, heq⟩ := Option.map_eq_some_iff.mp h
          subst heq
          obtain ⟨hbegins, hsolid⟩ := mark?_spec hword
          exact sound_mark (by simpa using hbegins) (by simpa using hsolid)
  case h_6 => cases h

theorem sound_lexStep? {frames : List Frame} {cs : List Char} {step : LexStep}
    (h : lexStep? frames cs = some step) : step.Sound cs := by
  unfold lexStep? at h
  split at h
  case h_1 => exact sound_stepInCode h
  case h_2 => exact sound_stepInCode h
  case h_3 => exact sound_stepInString h

-- Tokens and comments as they come out of a text from an offset on.
structure Lexed.Sound (text : List Char) (lo : Nat) (lexed : Lexed) : Prop where
  tokens : ∀ t ∈ lexed.tokens, t.Sound text
  tokensInOrder : Span.InOrder lo (byteLength text) (lexed.tokens.map (·.span))
  comments : ∀ c ∈ lexed.comments, c.Sound text
  commentsInOrder : Span.InOrder lo (byteLength text) (lexed.comments.map (·.span))

namespace Lexed

variable {text : List Char} {lo : Nat}

theorem sound_empty (h : lo ≤ byteLength text) : Lexed.empty.Sound text lo where
  tokens := by simp [empty]
  tokensInOrder := h
  comments := by simp [empty]
  commentsInOrder := h

theorem Sound.mono {lexed : Lexed} {lo' : Nat} (hle : lo' ≤ lo) (h : lexed.Sound text lo) :
    lexed.Sound text lo' where
  tokens := h.tokens
  tokensInOrder := h.tokensInOrder.mono hle
  comments := h.comments
  commentsInOrder := h.commentsInOrder.mono hle

end Lexed

theorem spelled_of_append {pre word post : List Char} (h : word ≠ []) :
    Spelled (pre ++ word ++ post) ⟨byteLength pre, byteLength (pre ++ word)⟩
      (String.ofList word) where
  fits := {
    ordered := by simp [Span.Ordered]
    start := by rw [List.append_assoc]; exact isBoundary_append pre (word ++ post)
    stop := isBoundary_append (pre ++ word) post }
  slice := by rw [String.toList_ofList]; exact slice_eq pre word post
  nonempty := by
    cases word with
    | nil => exact absurd rfl h
    | cons c word =>
      have := c.utf8Size_pos
      simp only [byteLength_append, byteLength_cons]
      omega

-- One step adds what it finds in front of what the lexer finds in the rest of the text.
theorem Lexed.Sound.add {lexed : Lexed} {lexeme : Lexeme} {pre word post : List Char}
    (hfits : lexeme.Fits word)
    (h : lexed.Sound (pre ++ word ++ post) (byteLength (pre ++ word))) :
    (lexed.add lexeme (String.ofList word) ⟨byteLength pre, byteLength (pre ++ word)⟩).Sound
      (pre ++ word ++ post) (byteLength pre) := by
  have hle : byteLength pre ≤ byteLength (pre ++ word) := by simp
  cases lexeme with
  | gap => exact h.mono hle
  | silent => exact h.mono hle
  | token kind =>
    obtain ⟨hne, hmark, hsolid, hidentifier⟩ := hfits
    have hspelled : Spelled (pre ++ word ++ post) ⟨byteLength pre, byteLength (pre ++ word)⟩
        (String.ofList word) := spelled_of_append hne
    refine ⟨?_, ⟨Nat.le_refl _, hspelled.nonempty, h.tokensInOrder⟩, h.comments,
      h.commentsInOrder.mono hle⟩
    intro t ht
    cases List.mem_cons.mp ht with
    | inr hmem => exact h.tokens t hmem
    | inl heq =>
      subst heq
      refine ⟨hspelled, ?_, ?_, ?_⟩
      · intro mark hkind
        rw [← hmark mark hkind, String.ofList_toList]
      · intro hpart
        rw [String.toList_ofList]
        exact hsolid hpart
      · intro hkind
        rw [String.toList_ofList]
        exact hidentifier hkind
  | comment kind =>
    obtain ⟨hkind, hsolid⟩ := hfits
    have hspelled : Spelled (pre ++ word ++ post) ⟨byteLength pre, byteLength (pre ++ word)⟩
        (String.ofList word) := spelled_of_append hsolid.ne_nil
    refine ⟨h.tokens, h.tokensInOrder.mono hle, ?_,
      ⟨Nat.le_refl _, hspelled.nonempty, h.commentsInOrder⟩⟩
    intro c hc
    cases List.mem_cons.mp hc with
    | inr hmem => exact h.comments c hmem
    | inl heq =>
      subst heq
      exact ⟨hspelled, hkind, by rwa [String.toList_ofList]⟩

theorem sound_lexFrom {n : Nat} {frames : List Frame} {pre cs : List Char} {lexed : Lexed}
    (h : lexFrom n frames (byteLength pre) cs = some lexed) :
    lexed.Sound (pre ++ cs) (byteLength pre) := by
  induction n generalizing frames pre cs lexed with
  | zero =>
    cases cs with
    | nil =>
      rw [lexFrom, Option.some.injEq] at h
      exact h ▸ Lexed.sound_empty (by simp)
    | cons c cs => cases h
  | succ n ih =>
    cases cs with
    | nil =>
      rw [lexFrom, Option.some.injEq] at h
      exact h ▸ Lexed.sound_empty (by simp)
    | cons c cs =>
      rw [lexFrom] at h
      split at h
      case h_1 => cases h
      case h_2 step hstep =>
        obtain ⟨hsplit, hfits⟩ := sound_lexStep? hstep
        obtain ⟨found, hfound, heq⟩ := Option.map_eq_some_iff.mp h
        rw [← byteLength_append] at hfound heq
        have hrest := ih hfound
        rw [List.append_assoc, hsplit, ← hsplit, ← List.append_assoc] at hrest
        rw [← heq, ← hsplit, ← List.append_assoc]
        exact hrest.add hfits

end ClassSplit.Java
