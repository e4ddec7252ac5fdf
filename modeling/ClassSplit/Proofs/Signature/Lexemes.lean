import ClassSplit.Proofs.Signature.TypeText

/-!
Types up to blanks. A type is a sequence of words and of other characters, and reading a type keeps
exactly that: two texts of types are read as the same type when they have the same words and the
same other characters, in the same order. Main statement: `collapseBlanks_eq_iff`.
-/

namespace ClassSplit.Signature

open Text

variable {c : Char} {cs : List Char} {last : Option Char} {pending : Bool}

-- The words of a text, and each other character that is not blank as a text of its own. As blanks
-- are kept between two words only, `?` is a word, too.
def lexemes : List Char → List (List Char)
  | [] => []
  | c :: cs =>
    if isBlank c then lexemes cs
    else
      match lexemes cs with
      | [] => [[c]]
      | first :: others =>
        if isTypeWord c && cs.head?.any isTypeWord then (c :: first) :: others
        else [c] :: first :: others

example : lexemes "Map< K , List<? super V>>".toList =
    ["Map", "<", "K", ",", "List", "<", "?", "super", "V", ">", ">"].map String.toList := by
  decide +kernel

def startsWord (ls : List (List Char)) : Bool := (ls.head?.bind List.head?).any isTypeWord

-- Words and other characters written out, with one space between two words.
def joined : List (List Char) → List Char
  | [] => []
  | first :: others =>
    first ++ (if first.getLast?.any isTypeWord && startsWord others then [' '] else [])
      ++ joined others

theorem lexemes_cons_blank (h : isBlank c = true) : lexemes (c :: cs) = lexemes cs := by
  rw [lexemes, if_pos h]

-- A text whose first character is not blank begins with a word if that character is one.
theorem startsWord_lexemes_cons (h : isBlank c = false) :
    lexemes (c :: cs) ≠ [] ∧ startsWord (lexemes (c :: cs)) = isTypeWord c := by
  rw [lexemes, if_neg (by simp [h])]
  split
  · exact ⟨List.cons_ne_nil _ _, rfl⟩
  · split_ifs
    · exact ⟨List.cons_ne_nil _ _, rfl⟩
    · exact ⟨List.cons_ne_nil _ _, rfl⟩

-- A character of a word in front of the rest of the word.
theorem lexemes_cons_word (hc : isTypeWord c = true) (hcs : cs.head?.any isTypeWord = true) :
    ∃ first others, lexemes cs = first :: others ∧ first ≠ [] ∧
      lexemes (c :: cs) = (c :: first) :: others := by
  cases cs with
  | nil => cases hcs
  | cons d cs =>
    have hd : isTypeWord d = true := by simpa using hcs
    obtain ⟨hne, hstarts⟩ :
        lexemes (d :: cs) ≠ [] ∧ startsWord (lexemes (d :: cs)) = isTypeWord d :=
      startsWord_lexemes_cons (isBlank_eq_false_of_isTypeWord hd)
    obtain ⟨first, others, heq⟩ := List.exists_cons_of_ne_nil hne
    refine ⟨first, others, heq, ?_, ?_⟩
    · rintro rfl
      rw [heq, hd] at hstarts
      cases hstarts
    · rw [lexemes, if_neg (by simp [isBlank_eq_false_of_isTypeWord hc]), heq]
      simp [hc, hd]

theorem lexemes_cons_apart (hc : isBlank c = false)
    (h : (isTypeWord c && cs.head?.any isTypeWord) = false) :
    lexemes (c :: cs) = [c] :: lexemes cs := by
  rw [lexemes, if_neg (by simp [hc]), h]
  cases lexemes cs with
  | nil => rfl
  | cons first others => rfl

-- Where a text does not begin with a word but its first lexeme is one, there is a blank in front.
theorem head_isBlank_of_startsWord (h : cs.head?.any isTypeWord = false)
    (hstarts : startsWord (lexemes cs) = true) : cs.head?.any isBlank = true := by
  cases cs with
  | nil => cases hstarts
  | cons c cs =>
    cases hc : isBlank c with
    | true => simp [hc]
    | false =>
      rw [(startsWord_lexemes_cons hc).right] at hstarts
      simp [hstarts] at h

-- A space stands behind a character where blanks divide two words.
def gap (last : Option Char) (blank : Bool) (cs : List Char) : List Char :=
  if blank && last.any isTypeWord && startsWord (lexemes cs) then [' '] else []

theorem joined_lexemes_cons (hc : isBlank c = false) :
    joined (lexemes (c :: cs)) = c :: (gap (some c) (cs.head?.any isBlank) cs ++ joined (lexemes cs)) := by
  by_cases hword : (isTypeWord c && cs.head?.any isTypeWord) = true
  case pos =>
    obtain ⟨hcword, hcs⟩ := Bool.and_eq_true_iff.mp hword
    obtain ⟨first, others, heq, hne, hcons⟩ := lexemes_cons_word hcword hcs
    have hblank : cs.head?.any isBlank = false := by
      cases cs with
      | nil => cases hcs
      | cons d cs => simpa using isBlank_eq_false_of_isTypeWord (by simpa using hcs)
    rw [hcons, heq, joined, joined, List.getLast?_cons_of_ne_nil hne, gap, hblank]
    simp
  case neg =>
    rw [Bool.not_eq_true] at hword
    rw [lexemes_cons_apart hc hword, joined, gap]
    by_cases hstarts : (isTypeWord c && startsWord (lexemes cs)) = true
    case pos =>
      obtain ⟨hcword, hstarts⟩ := Bool.and_eq_true_iff.mp hstarts
      have hhead : cs.head?.any isTypeWord = false := by simpa [hcword] using hword
      simp [hcword, hstarts, head_isBlank_of_startsWord hhead hstarts]
    case neg =>
      rw [Bool.not_eq_true] at hstarts
      simp [Bool.and_assoc, hstarts]

-- What reading leaves of a text are its lexemes, with a space in front of the first one if it is a
-- word that blanks divide from a word before.
theorem collapseBlanks_eq (last : Option Char) (pending : Bool) (cs : List Char) :
    collapseBlanks last pending cs =
      gap last (pending || cs.head?.any isBlank) cs ++ joined (lexemes cs) := by
  induction cs generalizing last pending with
  | nil => simp [collapseBlanks, gap, lexemes, startsWord, joined]
  | cons c cs ih =>
    rw [collapseBlanks]
    cases hc : isBlank c with
    | true => simp [ih, gap, lexemes_cons_blank hc, hc]
    | false =>
      have hlast : (last.map isTypeWord).getD false = last.any isTypeWord := by
        cases last with
        | none => rfl
        | some d => rfl
      rw [if_neg Bool.false_ne_true, ih, joined_lexemes_cons hc, gap.eq_1 last,
        (startsWord_lexemes_cons hc).right, ← hlast]
      change (if (pending && (last.map isTypeWord).getD false && isTypeWord c) = true
        then [' ', c] else [c]) ++ _ = _
      simp only [Bool.false_or, List.head?_cons, Option.any_some, hc, Bool.or_false]
      split_ifs
      · rfl
      · rfl

-- Blanks behind a word leave no word directly behind it.
theorem head_collapseBlanks (hc : isTypeWord c = true) :
    (collapseBlanks (some c) true cs).head?.any isTypeWord = false := by
  induction cs with
  | nil => rfl
  | cons d cs ih =>
    rw [collapseBlanks]
    split_ifs with hd
    · exact ih
    · change ((if (true && isTypeWord c && isTypeWord d) = true then [' ', d] else [d]) ++
        _).head?.any isTypeWord = false
      have hspace : isTypeWord ' ' = false := by decide
      rw [hc]
      cases hword : isTypeWord d with
      | true => simp [hspace]
      | false => simp [hword]

-- Reading leaves the lexemes of a text as they are.
theorem lexemes_collapseBlanks (last : Option Char) (pending : Bool) (cs : List Char) :
    lexemes (collapseBlanks last pending cs) = lexemes cs := by
  induction cs generalizing last pending with
  | nil => rfl
  | cons c cs ih =>
    rw [collapseBlanks]
    cases hc : isBlank c with
    | true => rw [if_pos rfl, ih, lexemes_cons_blank hc]
    | false =>
      have hspace : isBlank ' ' = true := by decide
      have hhead (hword : isTypeWord c = true) :
          (collapseBlanks (some c) false cs).head?.any isTypeWord = cs.head?.any isTypeWord := by
        cases cs with
        | nil => rfl
        | cons d cs =>
          rw [collapseBlanks]
          cases hd : isBlank d with
          | false => rfl
          | true =>
            rw [if_pos rfl, head_collapseBlanks hword]
            cases hdword : isTypeWord d with
            | false => simp [hdword]
            | true => simp [isBlank_eq_false_of_isTypeWord hdword] at hd
      have hcons : lexemes (c :: collapseBlanks (some c) false cs) = lexemes (c :: cs) := by
        rw [lexemes, lexemes, ih (some c) false]
        cases hword : isTypeWord c with
        | false => rfl
        | true => rw [hhead hword]
      rw [if_neg Bool.false_ne_true]
      dsimp only
      split_ifs
      · rw [List.cons_append, lexemes_cons_blank hspace]
        exact hcons
      · exact hcons

-- Texts are the same without their superfluous blanks if and only if they have the same lexemes.
theorem collapseBlanks_eq_iff (xs ys : List Char) :
    collapseBlanks none false xs = collapseBlanks none false ys ↔ lexemes xs = lexemes ys := by
  constructor
  case mp =>
    intro h
    rw [← lexemes_collapseBlanks none false xs, h, lexemes_collapseBlanks]
  case mpr =>
    intro h
    simp [collapseBlanks_eq, gap, h]

end ClassSplit.Signature
