import ClassSplit.Signature.Reader
import Mathlib.Tactic.SplitIfs

/-!
Texts that commas do not divide. A list of parameters is divided at the commas outside all brackets;
a text with balanced brackets and no comma outside them stays in one piece, and the names of types
are such texts. Main statements: `splitTopLevel_intercalate`, `firstPart_of_splitTopLevel` and
`isWhole_of_isTypeName`.
-/

namespace ClassSplit.Signature

open Text

variable {depth : Nat} {complete : Bool} {c : Char} {cs ds : List Char}

def opens (c : Char) : Bool := c = '<' ∨ c = '(' ∨ c = '['

def closes (c : Char) : Bool := c = '>' ∨ c = ')' ∨ c = ']'

-- With so many brackets open before it, a text that closes them all and its own in the end, and
-- has its commas inside brackets.
def isWhole (depth : Nat) : List Char → Bool
  | [] => depth == 0
  | c :: cs =>
    if opens c then isWhole (depth + 1) cs
    else if closes c then 0 < depth && isWhole (depth - 1) cs
    else (0 < depth || c != ',') && isWhole depth cs

theorem isWhole_append (h : isWhole depth cs = true) (hd : isWhole 0 ds = true) :
    isWhole depth (cs ++ ds) = true := by
  induction cs generalizing depth with
  | nil =>
    have hdepth : depth = 0 := by simpa [isWhole] using h
    exact hdepth ▸ hd
  | cons c cs ih =>
    simp only [List.cons_append, isWhole] at h ⊢
    split_ifs at h ⊢ with hopen hclose
    · exact ih h
    · simp only [Bool.and_eq_true] at h ⊢
      exact ⟨h.left, ih h.right⟩
    · simp only [Bool.and_eq_true] at h ⊢
      exact ⟨h.left, ih h.right⟩

theorem splitTopLevel_ne_nil (depth : Int) (cs : List Char) : splitTopLevel depth cs ≠ [] := by
  cases cs with
  | nil => simp [splitTopLevel]
  | cons c cs =>
    simp only [splitTopLevel]
    split_ifs
    · split <;> exact List.cons_ne_nil _ _
    · split <;> exact List.cons_ne_nil _ _
    · exact List.cons_ne_nil _ _
    · split <;> exact List.cons_ne_nil _ _

-- The first part of what follows a whole text continues it.
theorem splitTopLevel_append (h : isWhole depth cs = true) :
    splitTopLevel depth (cs ++ ds) =
      (cs ++ (splitTopLevel 0 ds).headD []) :: (splitTopLevel 0 ds).tail := by
  induction cs generalizing depth with
  | nil =>
    have hdepth : depth = 0 := by simpa [isWhole] using h
    subst hdepth
    cases hd : splitTopLevel 0 ds with
    | nil => exact absurd hd (splitTopLevel_ne_nil _ _)
    | cons part parts => simpa using hd
  | cons c cs ih =>
    simp only [isWhole, opens, closes, decide_eq_true_eq] at h
    simp only [List.cons_append, splitTopLevel]
    split_ifs at h with hopen hclose
    · have hrest := ih h
      push_cast at hrest
      rw [if_pos hopen, hrest]
    · rw [Bool.and_eq_true, decide_eq_true_eq] at h
      have hrest := ih h.right
      rw [Int.ofNat_sub h.left] at hrest
      push_cast at hrest
      rw [if_neg hopen, if_pos hclose, hrest]
    · rw [Bool.and_eq_true, Bool.or_eq_true, decide_eq_true_eq] at h
      have hcomma : ¬(c = ',' ∧ (depth : Int) ≤ 0) := by
        rintro ⟨rfl, hle⟩
        obtain hdepth | hne := h.left
        · omega
        · simp at hne
      rw [if_neg hopen, if_neg hclose, if_neg hcomma, ih h.right]

theorem splitTopLevel_comma (ds : List Char) :
    splitTopLevel 0 (',' :: ds) = [] :: splitTopLevel 0 ds := rfl

theorem splitTopLevel_intercalate {parts : List (List Char)} (hne : parts ≠ [])
    (h : ∀ part ∈ parts, isWhole 0 part = true) :
    splitTopLevel 0 ([','].intercalate parts) = parts := by
  induction parts with
  | nil => exact absurd rfl hne
  | cons part parts ih =>
    have hpart := h part List.mem_cons_self
    cases parts with
    | nil =>
      rw [List.intercalate_singleton, ← List.append_nil part]
      exact splitTopLevel_append hpart
    | cons next parts =>
      have hrest := ih (List.cons_ne_nil _ _) fun p hp => h p (List.mem_cons_of_mem _ hp)
      rw [List.intercalate_cons_cons, List.append_assoc, List.singleton_append]
      refine (splitTopLevel_append hpart).trans ?_
      rw [splitTopLevel_comma, hrest, List.headD_cons, List.tail_cons, List.append_nil]

-- How many brackets are open after a text, which may close more than it opens.
def bracketDepth (depth : Int) : List Char → Int
  | [] => depth
  | c :: cs => bracketDepth (if opens c then depth + 1 else if closes c then depth - 1 else depth) cs

-- The first part of a text that is divided at its commas, and the other parts.
structure FirstPart (depth : Int) (cs part : List Char) (parts : List (List Char)) : Prop where
  inside : ∀ xs ys, part = xs ++ ',' :: ys → 0 < bracketDepth depth xs
  rest : cs = part ∧ parts = [] ∨ ∃ rest, cs = part ++ ',' :: rest ∧ bracketDepth depth part ≤ 0 ∧
    parts = splitTopLevel (bracketDepth depth part) rest

theorem splitTopLevel_cons (depth : Int) (c : Char) (cs : List Char) :
    splitTopLevel depth (c :: cs) =
      if c = ',' ∧ depth ≤ 0 then [] :: splitTopLevel depth cs
      else (c :: (splitTopLevel (bracketDepth depth [c]) cs).headD []) ::
        (splitTopLevel (bracketDepth depth [c]) cs).tail := by
  have honward (d : Int) : ∃ part parts, splitTopLevel d cs = part :: parts :=
    List.exists_cons_of_ne_nil (splitTopLevel_ne_nil d cs)
  rw [splitTopLevel]
  dsimp only
  by_cases hopen : c = '<' ∨ c = '(' ∨ c = '['
  · have hcomma : c ≠ ',' := by rintro rfl; simp at hopen
    have hdepth : bracketDepth depth [c] = depth + 1 := by simp [bracketDepth, opens, hopen]
    obtain ⟨part, parts, hsplit⟩ := honward (depth + 1)
    rw [if_pos hopen, if_neg fun h => hcomma h.left, hdepth, hsplit]
    rfl
  rw [if_neg hopen]
  by_cases hclose : c = '>' ∨ c = ')' ∨ c = ']'
  · have hcomma : c ≠ ',' := by rintro rfl; simp at hclose
    have hdepth : bracketDepth depth [c] = depth - 1 := by
      simp [bracketDepth, opens, closes, hopen, hclose]
    obtain ⟨part, parts, hsplit⟩ := honward (depth - 1)
    rw [if_pos hclose, if_neg fun h => hcomma h.left, hdepth, hsplit]
    rfl
  · have hdepth : bracketDepth depth [c] = depth := by
      simp [bracketDepth, opens, closes, hopen, hclose]
    rw [if_neg hclose, hdepth]
    obtain ⟨part, parts, hsplit⟩ := honward depth
    rw [hsplit]
    split_ifs
    · rfl
    · rfl

theorem firstPart_of_splitTopLevel {depth : Int} {part : List Char} {parts : List (List Char)}
    (h : splitTopLevel depth cs = part :: parts) : FirstPart depth cs part parts := by
  induction cs generalizing depth part with
  | nil =>
    cases h
    exact ⟨by simp, .inl ⟨rfl, rfl⟩⟩
  | cons c cs ih =>
    rw [splitTopLevel_cons] at h
    split_ifs at h with hcomma
    · cases h
      obtain ⟨rfl, hdepth⟩ := hcomma
      exact ⟨by simp, .inr ⟨cs, rfl, hdepth, rfl⟩⟩
    · obtain ⟨first, others, hsplit⟩ := List.exists_cons_of_ne_nil
        (splitTopLevel_ne_nil (bracketDepth depth [c]) cs)
      rw [hsplit] at h
      cases h
      obtain ⟨hinside, hrest⟩ := ih hsplit
      refine ⟨?_, ?_⟩
      · intro xs ys heq
        cases xs with
        | nil =>
          obtain ⟨rfl, -⟩ := List.cons.inj heq
          simpa [bracketDepth] using hcomma
        | cons x xs =>
          obtain ⟨hx, hfirst⟩ := List.cons.inj heq
          subst hx
          exact hinside xs ys hfirst
      · obtain ⟨rfl, rfl⟩ | ⟨rest, rfl, hdepth, rfl⟩ := hrest
        · exact .inl ⟨rfl, rfl⟩
        · exact .inr ⟨rest, rfl, hdepth, rfl⟩

-- What is left of the name of a type, given how many brackets are open and whether the name may
-- end here: words with dots between them, with or without type arguments in balanced brackets.
def isTypeName (depth : Nat) (complete : Bool) : List Char → Bool
  | [] => depth == 0 && complete
  | c :: cs =>
    if depth = 0 then
      if c = '<' then complete && isTypeName 1 false cs
      else if c = '.' then complete && isTypeName 0 false cs
      else isWordChar c && isTypeName 0 true cs
    else if opens c then isTypeName (depth + 1) false cs
    else if closes c then (1 < depth || c == '>') && isTypeName (depth - 1) true cs
    else isTypeName depth complete cs

theorem ne_of_isWordChar (hc : isWordChar c = true) (mark : Char)
    (hmark : isWordChar mark = false) : c ≠ mark := by
  rintro rfl
  rw [hmark] at hc
  cases hc

theorem opens_of_isWordChar (h : isWordChar c = true) : opens c = false := by
  simp [opens, ne_of_isWordChar h '<' (by decide),
    ne_of_isWordChar h '(' (by decide), ne_of_isWordChar h '[' (by decide)]

theorem closes_of_isWordChar (h : isWordChar c = true) : closes c = false := by
  simp [closes, ne_of_isWordChar h '>' (by decide),
    ne_of_isWordChar h ')' (by decide), ne_of_isWordChar h ']' (by decide)]

theorem isWhole_of_isTypeName (h : isTypeName depth complete cs = true) :
    isWhole depth cs = true := by
  induction cs generalizing depth complete with
  | nil => exact (Bool.and_eq_true_iff.mp h).left
  | cons c cs ih =>
    simp only [isTypeName] at h
    simp only [isWhole]
    by_cases hdepth : depth = 0
    case pos =>
      subst hdepth
      rw [if_pos rfl] at h
      split_ifs at h with hangle hdot
      · subst hangle
        exact ih (Bool.and_eq_true_iff.mp h).right
      · subst hdot
        exact ih (Bool.and_eq_true_iff.mp h).right
      · obtain ⟨hword, hrest⟩ := Bool.and_eq_true_iff.mp h
        simpa [opens_of_isWordChar hword, closes_of_isWordChar hword,
          ne_of_isWordChar hword ',' (by decide)] using ih hrest
    case neg =>
      have hpos : 0 < depth := Nat.pos_of_ne_zero hdepth
      rw [if_neg hdepth] at h
      split_ifs at h ⊢
      · exact ih h
      · simpa [hpos] using ih (Bool.and_eq_true_iff.mp h).right
      · simpa [hpos] using ih h

-- The name of a type ends with a word or with type arguments.
theorem last_of_isTypeName (h : isTypeName depth complete (cs ++ [c]) = true) :
    isWordChar c = true ∨ c = '>' := by
  induction cs generalizing depth complete with
  | nil =>
    simp only [List.nil_append, isTypeName] at h
    split_ifs at h
    · simp at h
    · simp at h
    · exact .inl (Bool.and_eq_true_iff.mp h).left
    · simp at h
    · obtain ⟨hshape, hrest⟩ := Bool.and_eq_true_iff.mp h
      simp only [Bool.or_eq_true, decide_eq_true_eq, beq_iff_eq, Bool.and_true] at hshape hrest
      exact .inr (hshape.resolve_left (by omega))
    · simp_all
  | cons d ds ih =>
    simp only [List.cons_append, isTypeName] at h
    split_ifs at h
    · exact ih (Bool.and_eq_true_iff.mp h).right
    · exact ih (Bool.and_eq_true_iff.mp h).right
    · exact ih (Bool.and_eq_true_iff.mp h).right
    · exact ih h
    · exact ih (Bool.and_eq_true_iff.mp h).right
    · exact ih h

end ClassSplit.Signature
