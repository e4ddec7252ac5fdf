import ClassSplit.Proofs.Text.Solid
import ClassSplit.Text.Words
import Mathlib.Data.List.TakeWhile

/-!
Where the scan for identifiers finds a word. It reads from left to right and knows neither comments
nor text blocks: a word is overlooked if a quote in front of it is still open, wherever that quote
stands, and also if the last character in front of it that is not blank is a dot. Main statements:
`Clear.mem_identifiersAfter`, `overlooked_of_not_mem_identifiers`.
-/

namespace ClassSplit.Text

variable {c quote : Char} {cs before word after : List Char} {last : Option Char}

-- The quote of a literal that is being read, and whether a backslash has just been read.
def afterQuote (escaped : Bool) (quote c : Char) : Option (Char × Bool) :=
  if escaped then some (quote, false)
  else if c = '\\' then some (quote, true)
  else if c = quote then none
  else some (quote, false)

def nextQuote (state : Option (Char × Bool)) (c : Char) : Option (Char × Bool) :=
  match state with
  | none => if c = '"' ∨ c = '\'' then some (c, false) else none
  | some (quote, escaped) => afterQuote escaped quote c

-- Whether each literal that begins in a text ends in it.
def Quoteless (cs : List Char) : Prop := cs.foldl nextQuote none = none

-- The last character that is not blank, given the one in front of the text.
def lastSolid (last : Option Char) (cs : List Char) : Option Char :=
  cs.foldl (fun last c => if isBlank c then last else some c) last

-- No word character adjoins the text on either side.
def Apart (before after : List Char) : Prop :=
  before.getLast?.all (!isWordChar ·) = true ∧ after.head?.all (!isWordChar ·) = true

-- A literal that is closed ends with its quote.
theorem exists_afterLiteral (hquote : quote ≠ '\\')
    (h : cs.foldl nextQuote (some (quote, false)) = none) (after : List Char) :
    ∃ literal rest, cs = literal ++ quote :: rest ∧ rest.foldl nextQuote none = none ∧
      afterLiteral quote (cs ++ after) = rest ++ after := by
  induction cs using afterLiteral.induct quote with
  | case1 => cases h
  | case2 x cs ih =>
    obtain ⟨literal, rest, heq, hrest, hafter⟩ := ih h
    exact ⟨'\\' :: x :: literal, rest, by simp [heq], hrest, hafter⟩
  | case3 cs hne =>
    refine ⟨[], cs, rfl, ?_, ?_⟩
    · simpa [nextQuote, afterQuote, hquote] using h
    · rw [List.cons_append, afterLiteral.eq_3 _ _ _ (fun _ _ heq => absurd heq hquote), if_pos rfl]
  | case4 c cs hne hend ih =>
    have hbackslash : c ≠ '\\' := by
      rintro rfl
      cases cs with
      | nil => cases h
      | cons x cs => exact hne x cs rfl rfl
    obtain ⟨literal, rest, heq, hrest, hafter⟩ := ih (by
      simpa [nextQuote, afterQuote, hbackslash, hend] using h)
    refine ⟨c :: literal, rest, by simp [heq], hrest, ?_⟩
    rw [List.cons_append, afterLiteral.eq_3 _ _ _ (fun _ _ heq => absurd heq hbackslash),
      if_neg hend, hafter]

theorem isWordChar_quote {c : Char} (h : c = '"' ∨ c = '\'') : isWordChar c = false := by
  obtain rfl | rfl := h
  · decide +kernel
  · decide +kernel

theorem foldl_nextQuote_of_isWordChar (h : ∀ c ∈ cs, isWordChar c = true) :
    cs.foldl nextQuote none = none := by
  induction cs with
  | nil => rfl
  | cons c cs ih =>
    have hquote : ¬(c = '"' ∨ c = '\'') := by
      intro hquote
      have hword := h c List.mem_cons_self
      rw [isWordChar_quote hquote] at hword
      cases hword
    rw [List.foldl_cons, nextQuote, if_neg hquote]
    exact ih fun d hd => h d (List.mem_cons_of_mem c hd)

theorem lastSolid_append (last : Option Char) (xs ys : List Char) :
    lastSolid last (xs ++ ys) = lastSolid (lastSolid last xs) ys := List.foldl_append

theorem lastSolid_concat (h : isBlank c = false) (last : Option Char) (cs : List Char) :
    lastSolid last (cs ++ [c]) = some c := by
  rw [lastSolid_append, lastSolid, List.foldl_cons, h]
  rfl

theorem lastSolid_of_isWordChar (h : ∀ c ∈ cs, isWordChar c = true) (hne : cs ≠ []) :
    lastSolid last cs = cs.getLast? := by
  obtain ⟨front, c, rfl⟩ := (List.eq_nil_or_concat cs).resolve_left hne
  rw [List.concat_eq_append] at h ⊢
  rw [lastSolid_concat (isBlank_eq_false_of_isWordChar (h c (by simp))), List.getLast?_concat]

section Scan

theorem identifiersAfter_quote (h : c = '"' ∨ c = '\'') (last : Option Char) (cs : List Char) :
    identifiersAfter last (c :: cs) = identifiersAfter (some c) (afterLiteral c cs) := by
  rw [identifiersAfter, if_pos h]

theorem identifiersAfter_word (h : isWordChar c = true) (last : Option Char) (cs : List Char) :
    identifiersAfter last (c :: cs) =
      (if c.isDigit || last == some '.' then [] else [c :: cs.takeWhile isWordChar])
        ++ identifiersAfter (c :: cs.takeWhile isWordChar).getLast? (cs.dropWhile isWordChar) := by
  have hquote : ¬(c = '"' ∨ c = '\'') := by
    intro hquote
    rw [isWordChar_quote hquote] at h
    cases h
  rw [identifiersAfter, if_neg hquote, if_pos h]
  split
  all_goals rfl

theorem identifiersAfter_other (hquote : ¬(c = '"' ∨ c = '\'')) (h : isWordChar c = false)
    (last : Option Char) (cs : List Char) :
    identifiersAfter last (c :: cs) = identifiersAfter (lastSolid last [c]) cs := by
  rw [identifiersAfter, if_neg hquote, if_neg (by simp [h])]
  rfl

-- The scan finds a word at which it stands.
theorem head_mem_identifiersAfter (hword : word ≠ []) (hchars : ∀ c ∈ word, isWordChar c = true)
    (hdigit : word.head?.all (!·.isDigit) = true)
    (hafter : after.head?.all (!isWordChar ·) = true) (hdot : last ≠ some '.') :
    word ∈ identifiersAfter last (word ++ after) := by
  obtain ⟨c, rest, rfl⟩ := List.exists_cons_of_ne_nil hword
  have htake : (rest ++ after).takeWhile isWordChar = rest := by
    rw [List.takeWhile_append_of_pos fun d hd => hchars d (List.mem_cons_of_mem c hd)]
    cases after with
    | nil => simp
    | cons d after =>
      have hd : isWordChar d = false := by simpa using hafter
      simp [hd]
  rw [List.cons_append, identifiersAfter_word (hchars c List.mem_cons_self), htake, if_neg]
  · exact List.mem_append_left _ List.mem_cons_self
  · have hc : c.isDigit = false := by simpa using hdigit
    simp [hc, hdot]

theorem Apart.of_append {front : List Char} (h : Apart (front ++ before) after) :
    Apart before after := by
  refine ⟨?_, h.right⟩
  have hlast := h.left
  rw [List.getLast?_append] at hlast
  cases hbefore : before.getLast? with
  | none => rfl
  | some c => rwa [hbefore] at hlast

-- A word that the scan reads in front of a place does not reach it.
theorem dropWhile_append_of_apart (h : Apart before after) (hne : before ≠ []) (rest : List Char) :
    (before ++ rest).takeWhile isWordChar = before.takeWhile isWordChar ∧
      (before ++ rest).dropWhile isWordChar = before.dropWhile isWordChar ++ rest := by
  have hlast := h.left
  rw [List.getLast?_eq_some_getLast hne] at hlast
  have hother : ¬∀ c ∈ before, isWordChar c = true := by
    intro hall
    simp [hall _ (List.getLast_mem hne)] at hlast
  rw [List.takeWhile_append, List.dropWhile_append, if_neg, if_neg]
  · exact ⟨rfl, rfl⟩
  · rwa [List.isEmpty_iff, List.dropWhile_eq_nil_iff]
  · rw [← List.takeWhile_eq_self_iff] at hother
    intro hlength
    exact hother ((List.takeWhile_prefix _).eq_of_length hlength)

-- What the scan still has to read in front of a word does not hide it.
structure Clear (last : Option Char) (before after : List Char) : Prop where
  apart : Apart before after
  quoteless : Quoteless before
  noDot : lastSolid last before ≠ some '.'

theorem Clear.after_quote (h : Clear last (c :: before) after) (hquote : c = '"' ∨ c = '\'')
    (rest : List Char) : ∃ front, front.length < (c :: before).length ∧
      Clear (some c) front after ∧
        identifiersAfter last (c :: before ++ rest) = identifiersAfter (some c) (front ++ rest) := by
  obtain ⟨happart, hquoteless, hdot⟩ := h
  have hbackslash : c ≠ '\\' := by
    rintro rfl
    revert hquote
    decide
  have hblank : isBlank c = false := by
    obtain rfl | rfl := hquote
    all_goals decide
  rw [Quoteless, List.foldl_cons, nextQuote, if_pos hquote] at hquoteless
  obtain ⟨literal, front, rfl, hfront, hafter⟩ := exists_afterLiteral hbackslash hquoteless rest
  have hsplit : c :: (literal ++ c :: front) = (c :: literal ++ [c]) ++ front := by simp
  rw [hsplit] at happart hdot
  rw [lastSolid_append, lastSolid_concat hblank] at hdot
  refine ⟨front, ?_, ⟨happart.of_append, hfront, hdot⟩, ?_⟩
  · simp only [List.length_cons, List.length_append]
    omega
  · rw [List.cons_append, identifiersAfter_quote hquote, hafter]

theorem Clear.after_word (h : Clear last (c :: before) after) (hchar : isWordChar c = true)
    (rest : List Char) : ∃ last' front, front.length < (c :: before).length ∧
      Clear last' front after ∧
        identifiersAfter last' (front ++ rest) ⊆ identifiersAfter last (c :: before ++ rest) := by
  obtain ⟨happart, hquoteless, hdot⟩ := h
  have hsplit : (c :: before.takeWhile isWordChar) ++ before.dropWhile isWordChar = c :: before := by
    rw [List.cons_append, List.takeWhile_append_dropWhile]
  have hread : ∀ d ∈ c :: before.takeWhile isWordChar, isWordChar d = true := by
    intro d hd
    obtain rfl | hd := List.mem_cons.mp hd
    · exact hchar
    · exact List.mem_takeWhile_imp hd
  have hne : before ≠ [] := by
    rintro rfl
    simp [Apart, hchar] at happart
  have hbefore : Apart before after := by
    rw [← List.singleton_append] at happart
    exact happart.of_append
  rw [← hsplit] at happart hquoteless hdot
  rw [Quoteless, List.foldl_append, foldl_nextQuote_of_isWordChar hread] at hquoteless
  rw [lastSolid_append, lastSolid_of_isWordChar hread (List.cons_ne_nil _ _)] at hdot
  refine ⟨_, _, ?_, ⟨happart.of_append, hquoteless, hdot⟩, ?_⟩
  · exact Nat.lt_succ_of_le (List.dropWhile_suffix _).length_le
  · obtain ⟨htake, hdrop⟩ := dropWhile_append_of_apart hbefore hne rest
    rw [List.cons_append, identifiersAfter_word hchar, htake, hdrop]
    exact List.subset_append_right _ _

theorem Clear.after_other (h : Clear last (c :: before) after) (hquote : ¬(c = '"' ∨ c = '\''))
    (hchar : isWordChar c = false) (rest : List Char) :
    Clear (lastSolid last [c]) before after ∧
      identifiersAfter last (c :: before ++ rest) =
        identifiersAfter (lastSolid last [c]) (before ++ rest) := by
  obtain ⟨happart, hquoteless, hdot⟩ := h
  rw [Quoteless, List.foldl_cons, nextQuote, if_neg hquote] at hquoteless
  rw [← List.singleton_append] at happart hdot
  rw [lastSolid_append] at hdot
  exact ⟨⟨happart.of_append, hquoteless, hdot⟩, identifiersAfter_other hquote hchar _ _⟩

-- The scan comes nearer to the word with each step, and finds it when it is there.
theorem Clear.mem_identifiersAfter (h : Clear last before after) (hword : word ≠ [])
    (hchars : ∀ c ∈ word, isWordChar c = true) (hdigit : word.head?.all (!·.isDigit) = true) :
    word ∈ identifiersAfter last (before ++ (word ++ after)) := by
  induction hlength : before.length using Nat.strong_induction_on generalizing before last with
  | _ n ih =>
  subst hlength
  cases before with
  | nil => exact head_mem_identifiersAfter hword hchars hdigit h.apart.right h.noDot
  | cons c before =>
    by_cases hquote : c = '"' ∨ c = '\''
    case pos =>
      obtain ⟨front, hlt, hclear, heq⟩ := h.after_quote hquote (word ++ after)
      rw [heq]
      exact ih front.length hlt hclear rfl
    case neg =>
      cases hchar : isWordChar c with
      | true =>
        obtain ⟨last', front, hlt, hclear, hsubset⟩ := h.after_word hchar (word ++ after)
        exact hsubset (ih front.length hlt hclear rfl)
      | false =>
        obtain ⟨hclear, heq⟩ := h.after_other hquote hchar (word ++ after)
        rw [heq]
        exact ih before.length (Nat.lt_succ_self _) hclear rfl

-- Where the scan overlooks a word: behind an open quote or a dot, or as a part of a longer word.
def Overlooked (before after : List Char) : Prop :=
  ¬Quoteless before ∨ lastSolid none before = some '.' ∨ ¬Apart before after

theorem overlooked_of_not_mem_identifiers (hword : word ≠ [])
    (hchars : ∀ c ∈ word, isWordChar c = true) (hdigit : word.head?.all (!·.isDigit) = true)
    (h : word ∉ identifiers (before ++ (word ++ after))) : Overlooked before after := by
  by_contra hoverlooked
  simp only [Overlooked, not_or, Classical.not_not] at hoverlooked
  obtain ⟨hquoteless, hdot, happart⟩ := hoverlooked
  exact h (Clear.mem_identifiersAfter ⟨happart, hquoteless, hdot⟩ hword hchars hdigit)

end Scan

end ClassSplit.Text
