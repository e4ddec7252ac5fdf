import ClassSplit.Java.Lexeme
import ClassSplit.Proofs.Text.Solid

/-!
The words of the lexical grammar. Number literals, marks and identifiers are solid.
-/

namespace ClassSplit.Java

open Text

namespace Pattern

variable {p q : Pattern}

-- What the pattern takes away is a beginning of the text without newlines.
class Over (p : Pattern) : Prop where
  split : ∀ {cs rest : List Char}, rest ∈ p cs → ∃ word, cs = word ++ rest ∧ '\n' ∉ word

-- It also is not empty and does not begin with a blank.
class Begins (p : Pattern) : Prop where
  split : ∀ {cs rest : List Char}, rest ∈ p cs →
    ∃ c word, cs = c :: word ++ rest ∧ isBlank c = false ∧ '\n' ∉ c :: word

theorem Begins.over (hp : Begins p) : Over p where
  split h := by
    obtain ⟨c, word, heq, -, hnewline⟩ := hp.split h
    exact ⟨c :: word, heq, hnewline⟩

theorem over_one {test : Char → Bool} (h : test '\n' = false) : Over (one test) where
  split {cs rest} hrest := by
    cases cs with
    | nil => simp [one] at hrest
    | cons c cs =>
      cases hc : test c with
      | false => simp [one, hc] at hrest
      | true =>
        have heq : rest = cs := by simpa [one, hc] using hrest
        refine ⟨[c], by simp [heq], ?_⟩
        intro hmem
        rw [List.mem_singleton.mp hmem, hc] at h
        cases h

theorem begins_one {test : Char → Bool} (h : ∀ c, test c = true → isBlank c = false) :
    Begins (one test) where
  split {cs rest} hrest := by
    cases cs with
    | nil => simp [one] at hrest
    | cons c cs =>
      cases hc : test c with
      | false => simp [one, hc] at hrest
      | true =>
        have heq : rest = cs := by simpa [one, hc] using hrest
        have hblank := h c hc
        refine ⟨c, [], by simp [heq], hblank, ?_⟩
        intro hmem
        rw [← List.mem_singleton.mp hmem] at hblank
        exact absurd hblank (by decide)

instance [hp : Over p] [hq : Over q] : Over (seq p q) where
  split h := by
    obtain ⟨mid, hmid, hrest⟩ := List.mem_flatMap.mp h
    obtain ⟨word, heq, hword⟩ := hp.split hmid
    obtain ⟨word', heq', hword'⟩ := hq.split hrest
    exact ⟨word ++ word', by simp [heq, heq'], by simp [hword, hword']⟩

instance [hp : Begins p] [hq : Over q] : Begins (seq p q) where
  split h := by
    obtain ⟨mid, hmid, hrest⟩ := List.mem_flatMap.mp h
    obtain ⟨c, word, heq, hc, hword⟩ := hp.split hmid
    obtain ⟨word', heq', hword'⟩ := hq.split hrest
    refine ⟨c, word ++ word', by simp [heq, heq'], hc, ?_⟩
    rw [← List.cons_append, List.mem_append]
    exact not_or.mpr ⟨hword, hword'⟩

instance [hp : Over p] [hq : Over q] : Over (alt p q) where
  split h := by
    cases List.mem_append.mp h with
    | inl h => exact hp.split h
    | inr h => exact hq.split h

instance [hp : Begins p] [hq : Begins q] : Begins (alt p q) where
  split h := by
    cases List.mem_append.mp h with
    | inl h => exact hp.split h
    | inr h => exact hq.split h

instance [hp : Over p] : Over (opt p) where
  split {cs rest} h := by
    cases List.mem_append.mp h with
    | inl h => exact hp.split h
    | inr h => exact ⟨[], by simp [List.mem_singleton.mp h], by simp⟩

theorem over_some1 {digit : Char → Bool} (h : digit '\n' = false) : Over (some1 digit) where
  split {cs rest} hrest := by
    induction cs with
    | nil => simp [some1] at hrest
    | cons c cs ih =>
      cases hc : digit c with
      | false => simp [some1, hc] at hrest
      | true =>
        have hne : '\n' ≠ c := by
          intro heq
          rw [heq, hc] at h
          cases h
        rw [some1, if_pos hc] at hrest
        cases List.mem_append.mp hrest with
        | inl hmem =>
          obtain ⟨word, heq, hword⟩ := ih hmem
          exact ⟨c :: word, by simp [heq], by simp [hword, hne]⟩
        | inr hmem =>
          exact ⟨[c], by simp [List.mem_singleton.mp hmem], by simp [hne]⟩

theorem length_lt_of_mem_some1 {digit : Char → Bool} {cs rest : List Char}
    (h : rest ∈ some1 digit cs) : rest.length < cs.length := by
  induction cs with
  | nil => simp [some1] at h
  | cons c cs ih =>
    rw [some1] at h
    split at h
    case isTrue =>
      cases List.mem_append.mp h with
      | inl hmem => exact Nat.lt_succ_of_lt (ih hmem)
      | inr hmem => simp [List.mem_singleton.mp hmem]
    case isFalse => simp at h

theorem begins_some1 {digit : Char → Bool} (h : ∀ c, digit c = true → isBlank c = false) :
    Begins (some1 digit) where
  split {cs rest} hrest := by
    have hnewline : digit '\n' = false := by
      cases hd : digit '\n' with
      | false => rfl
      | true => exact absurd (h _ hd) (by decide)
    obtain ⟨word, heq, hword⟩ := (over_some1 hnewline).split hrest
    have hlen := length_lt_of_mem_some1 hrest
    cases word with
    | nil => simp [heq] at hlen
    | cons d word =>
      have hd : digit d = true := by
        cases hd : digit d with
        | true => rfl
        | false => simp [heq, some1, hd] at hrest
      exact ⟨d, word, heq, h d hd, hword⟩

section Groups

variable {digit : Char → Bool} {separator : Pattern} [hseparator : Over separator]

theorem over_go (h : digit '\n' = false) (n : Nat) : Over (groups.go digit separator n) := by
  have hdigits : Over (some1 digit) := over_some1 h
  induction n with
  | zero => exact ⟨by simp [groups.go]⟩
  | succ n ih =>
    have hall : Over (alt (seq (some1 digit) (seq separator (groups.go digit separator n)))
        (some1 digit)) := inferInstance
    exact ⟨fun hrest => hall.split hrest⟩

theorem over_groups (h : digit '\n' = false) : Over (groups digit separator) where
  split hrest := (over_go h _).split hrest

theorem begins_groups (h : ∀ c, digit c = true → isBlank c = false) :
    Begins (groups digit separator) where
  split {cs rest} hrest := by
    have hdigits : Begins (some1 digit) := begins_some1 h
    have hnewline : digit '\n' = false := by
      cases hd : digit '\n' with
      | false => rfl
      | true => exact absurd (h _ hd) (by decide)
    rw [groups] at hrest
    cases hn : cs.length with
    | zero => simp [hn, groups.go] at hrest
    | succ n =>
      have hgo : Over (groups.go digit separator n) := over_go hnewline n
      have hall : Begins (alt (seq (some1 digit) (seq separator (groups.go digit separator n)))
          (some1 digit)) := inferInstance
      rw [hn] at hrest
      exact hall.split hrest

end Groups

-- The longest prefix is one of those that have the pattern: the fold keeps that of its best.
theorem mem_of_longest? {cs rest : List Char} (h : p.longest? cs = some rest) : rest ∈ p cs := by
  have hfold : ∀ r, p.longest? cs = some r → r ∈ p cs := by
    unfold longest?
    refine List.foldlRecOn (motive := fun best => ∀ r, best = some r → r ∈ p cs) _ _ ?_ ?_
    · intro r hr
      cases hr
    · intro best ih rest hmem r hr
      cases best with
      | none =>
        cases hr
        exact hmem
      | some b =>
        simp only at hr
        split at hr
        case isTrue =>
          cases hr
          exact hmem
        case isFalse => exact ih r hr
  exact hfold rest h

end Pattern

namespace Number

open Pattern

theorem isBlank_eq_false_of_isDigit {c : Char} (h : c.isDigit = true) : isBlank c = false := by
  have hblank : blankCodes.all (fun n => !decide (48 ≤ n ∧ n ≤ 57)) = true := by decide
  have hcode : 48 ≤ c.toNat ∧ c.toNat ≤ 57 := by
    simp only [Char.isDigit, ge_iff_le, Bool.and_eq_true, decide_eq_true_eq] at h
    exact ⟨UInt32.le_iff_toNat_le.mp h.left, UInt32.le_iff_toNat_le.mp h.right⟩
  exact isBlank_eq_false_of (p := fun n => decide (48 ≤ n ∧ n ≤ 57)) hblank (by simpa using hcode)

theorem begins_char {c : Char} (h : isBlank c = false) : Begins (char c) := by
  refine begins_one ?_
  intro d hd
  rw [beq_iff_eq.mp hd]
  exact h

instance : Over underscore := over_one rfl
instance : Over (some1 (· == '_')) := over_some1 rfl
instance : Over (char '.') := over_one rfl
instance : Over (anyOf "lL") := over_one (by decide)
instance : Over (anyOf "-+") := over_one (by decide)
instance : Over (anyOf "fFdD") := over_one (by decide)
instance : Over (anyOf "eE") := over_one (by decide)
instance : Over (anyOf "xX") := over_one (by decide)
instance : Over (anyOf "oO") := over_one (by decide)
instance : Over (anyOf "bB") := over_one (by decide)
instance : Over (anyOf "eEpP") := over_one (by decide)
instance : Begins (char '0') := begins_char (by decide)
instance : Begins (char '.') := begins_char (by decide)

instance : Begins (one fun c => c.isDigit && c != '0') := by
  refine begins_one ?_
  intro c h
  exact isBlank_eq_false_of_isDigit (Bool.and_eq_true_iff.mp h).left

instance : Over (groups Char.isDigit (some1 (· == '_'))) := over_groups (by decide)
instance : Begins decimalDigits := begins_groups fun _ => isBlank_eq_false_of_isDigit
instance : Over decimalDigits := Begins.over inferInstance
instance : Over hexDigits := over_groups (by decide)
instance : Over (groups isOctal underscore) := over_groups (by decide)
instance : Over (groups isBinary underscore) := over_groups (by decide)
instance : Begins digits := by unfold digits; infer_instance
instance : Over digits := Begins.over inferInstance
instance : Over long := by unfold long; infer_instance
instance : Over sign := by unfold sign; infer_instance
instance : Over floatMark := by unfold floatMark; infer_instance
instance : Over exponent := by unfold exponent; infer_instance
instance : Begins hexMark := by unfold hexMark; infer_instance
instance : Begins decimalInteger := by unfold decimalInteger; infer_instance
instance : Begins hexInteger := by unfold hexInteger; infer_instance
instance : Begins octalInteger := by unfold octalInteger; infer_instance
instance : Begins binaryInteger := by unfold binaryInteger; infer_instance
instance : Begins decimalFloat := by unfold decimalFloat; infer_instance
instance : Begins hexFloat := by unfold hexFloat; infer_instance

theorem begins_of_mem_forms {kind : Kind} {p : Pattern} (h : (kind, p) ∈ forms) : Begins p := by
  simp only [forms, List.mem_cons, Prod.mk.injEq, List.not_mem_nil, or_false] at h
  obtain ⟨-, rfl⟩ | ⟨-, rfl⟩ | ⟨-, rfl⟩ | ⟨-, rfl⟩ | ⟨-, rfl⟩ | ⟨-, rfl⟩ := h
  all_goals infer_instance

-- The best reading of a number is the longest match of one of the forms.
theorem exists_form_of_scan? {cs rest : List Char} {kind : Kind}
    (h : scan? cs = some (kind, rest)) :
    ∃ p, (kind, p) ∈ forms ∧ p.longest? cs = some rest := by
  have hfold : ∀ k r, scan? cs = some (k, r) → ∃ p, (k, p) ∈ forms ∧ p.longest? cs = some r := by
    unfold scan?
    refine List.foldlRecOn (motive := fun best => ∀ k r, best = some (k, r) →
      ∃ p, (k, p) ∈ forms ∧ p.longest? cs = some r) _ _ ?_ ?_
    · intro k r hr
      cases hr
    · intro best ih form hmem k r hr
      obtain ⟨k', p⟩ := form
      cases hlongest : p.longest? cs with
      | none =>
        simp only [hlongest] at hr
        exact ih k r hr
      | some r' =>
        cases best with
        | none =>
          simp only [hlongest, Option.some.injEq, Prod.mk.injEq] at hr
          obtain ⟨rfl, rfl⟩ := hr
          exact ⟨p, hmem, hlongest⟩
        | some b =>
          simp only [hlongest] at hr
          split at hr
          case isTrue =>
            simp only [Option.some.injEq, Prod.mk.injEq] at hr
            obtain ⟨rfl, rfl⟩ := hr
            exact ⟨p, hmem, hlongest⟩
          case isFalse => exact ih k r hr
  exact hfold kind rest h

-- A number literal is solid, and its kind is that of one of the forms.
theorem scan?_spec {cs rest : List Char} {kind : Kind} (h : scan? cs = some (kind, rest)) :
    ∃ word, cs = word ++ rest ∧ Solid word ∧ ∃ p, (kind, p) ∈ forms := by
  obtain ⟨p, hp, hlongest⟩ := exists_form_of_scan? h
  obtain ⟨c, word, heq, hc, hnewline⟩ := (begins_of_mem_forms hp).split (mem_of_longest? hlongest)
  exact ⟨c :: word, heq, .of_no_newline hc hnewline, p, hp⟩

end Number

theorem isBlank_eq_false_of_isIdentifierStart {c : Char} (h : isIdentifierStart c = true) :
    isBlank c = false := by
  simp only [isIdentifierStart, Bool.or_eq_true, beq_iff_eq] at h
  obtain (h | rfl) | rfl := h
  case inl.inl => exact isBlank_eq_false_of_isLetter h
  case inl.inr => decide
  case inr => decide

-- No blank, bracket or dot is a part of an identifier.
theorem isBlank_eq_false_of_isIdentifierPart {c : Char} (h : isIdentifierPart c = true) :
    isBlank c = false := by
  simp only [isIdentifierPart, Bool.or_eq_true, beq_iff_eq] at h
  obtain (h | h) | rfl := h
  case inl.inl => exact isBlank_eq_false_of_isIdentifierStart h
  case inl.inr =>
    have hdigits : blankCodes.all (!inIntervals · decimalDigitIntervals) = true := by
      decide +kernel
    exact isBlank_eq_false_of hdigits h
  case inr => decide

theorem ne_of_isIdentifierPart {c : Char} (h : isIdentifierPart c = true) (d : Char)
    (hd : isIdentifierPart d = false) : c ≠ d := by
  rintro rfl
  rw [h] at hd
  cases hd

theorem solid_identifier {c : Char} (tail : List Char) (h : isIdentifierStart c = true) :
    Solid (c :: tail.takeWhile isIdentifierPart) := by
  refine .of_no_newline (isBlank_eq_false_of_isIdentifierStart h) ?_
  intro hmem
  have hpart : isIdentifierPart '\n' = false := by decide +kernel
  cases List.mem_cons.mp hmem with
  | inl heq =>
    rw [← heq] at h
    exact absurd h (by decide +kernel)
  | inr htail =>
    have := List.all_eq_true.mp List.all_takeWhile _ htail
    rw [hpart] at this
    cases this

theorem mark?_spec {cs mark : List Char} (h : mark? cs = some mark) : mark <+: cs ∧ Solid mark := by
  have hshort : shortMarks.all (!isBlank ·) = true := by decide
  have hlong : ∀ m ∈ longMarks, (m.head?.any (!isBlank ·)) = true ∧ '\n' ∉ m := by
    decide +kernel
  unfold mark? at h
  split at h
  case h_1 m hfind =>
    have heq : m = mark := Option.some.inj h
    subst heq
    have hbegins : m.isPrefixOf cs = true := by simpa using List.find?_some hfind
    refine ⟨List.isPrefixOf_iff_prefix.mp hbegins, ?_⟩
    obtain ⟨hfirst, hnewline⟩ := hlong m (List.mem_of_find?_eq_some hfind)
    cases m with
    | nil => cases hfirst
    | cons c m => exact .of_no_newline (by simpa using hfirst) hnewline
  case h_2 =>
    cases cs with
    | nil => cases h
    | cons c cs =>
      simp only at h
      split at h
      case isTrue hc =>
        have heq : [c] = mark := Option.some.inj h
        subst heq
        have hblank := List.all_eq_true.mp hshort c (by simpa using hc)
        exact ⟨by simp, .singleton (by simpa using hblank)⟩
      case isFalse => cases h

end ClassSplit.Java
