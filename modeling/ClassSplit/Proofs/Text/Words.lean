import ClassSplit.Proofs.Text.Solid
import ClassSplit.Text.Layout
import Mathlib.Data.List.Basic
import Mathlib.Data.List.TakeWhile

/-!
The words of a text: what stands between its blanks. Spacing, indenting and joining lines change the
blanks of a text and keep its words.
-/

namespace ClassSplit.Text

variable {c : Char} {cs xs ys : List Char}

def words (cs : List Char) : List (List Char) := (piecesBetweenBlanks cs).filter (· != [])

@[simp] theorem words_nil : words [] = [] := rfl

theorem piecesBetweenBlanks_ne_nil (cs : List Char) : piecesBetweenBlanks cs ≠ [] := by
  cases cs with
  | nil => simp [piecesBetweenBlanks]
  | cons c cs =>
    rw [piecesBetweenBlanks]
    split
    case h_1 => simp
    case h_2 =>
      split
      all_goals simp

theorem piecesBetweenBlanks_append (h : isBlank c = true) (xs ys : List Char) :
    piecesBetweenBlanks (xs ++ c :: ys) = piecesBetweenBlanks xs ++ piecesBetweenBlanks ys := by
  induction xs with
  | nil =>
    obtain ⟨piece, rest, hpieces⟩ := List.exists_cons_of_ne_nil (piecesBetweenBlanks_ne_nil ys)
    simp [piecesBetweenBlanks, hpieces, h]
  | cons x xs ih =>
    obtain ⟨piece, rest, hpieces⟩ := List.exists_cons_of_ne_nil (piecesBetweenBlanks_ne_nil xs)
    rw [List.cons_append, piecesBetweenBlanks, ih, piecesBetweenBlanks, hpieces]
    simp only [List.cons_append]
    split
    all_goals rfl

-- A blank divides the words.
theorem words_append (h : isBlank c = true) (xs ys : List Char) :
    words (xs ++ c :: ys) = words xs ++ words ys := by
  rw [words, piecesBetweenBlanks_append h, List.filter_append, words, words]

theorem words_cons (h : isBlank c = true) (cs : List Char) : words (c :: cs) = words cs :=
  words_append h [] cs

theorem words_append_singleton (h : isBlank c = true) (cs : List Char) :
    words (cs ++ [c]) = words cs := by
  rw [words_append h, words_nil, List.append_nil]

theorem words_append_of_allBlank (h : allBlank xs = true) (ys : List Char) :
    words (xs ++ ys) = words ys := by
  induction xs with
  | nil => rfl
  | cons x xs ih =>
    rw [allBlank, List.all_cons, Bool.and_eq_true] at h
    rw [List.cons_append, words_cons h.left, ih h.right]

theorem words_of_allBlank (h : allBlank cs = true) : words cs = [] := by
  have hwords := words_append_of_allBlank h []
  rwa [List.append_nil] at hwords

theorem words_intercalate {separator : List Char} (h : allBlank separator = true)
    (hne : separator ≠ []) (parts : List (List Char)) :
    words (List.intercalate separator parts) = parts.flatMap words := by
  induction parts with
  | nil => rfl
  | cons part parts ih =>
    cases parts with
    | nil => simp
    | cons next rest =>
      obtain ⟨c, blanks, rfl⟩ := List.exists_cons_of_ne_nil hne
      obtain ⟨hc, hblanks⟩ := Bool.and_eq_true_iff.mp h
      rw [List.intercalate_cons_cons, List.append_assoc, List.cons_append, words_append hc,
        words_append_of_allBlank hblanks, ih]
      rfl

-- Such a text can stand in front of another one without joining two words.
def Closed (cs : List Char) : Prop := cs.getLast?.all isBlank = true

section Lines

-- No line but the last is without an end.
theorem linesWithEnds_ended (cs : List Char) :
    ∀ line ∈ (linesWithEnds cs).dropLast, line.2 = true := by
  induction cs using linesWithEnds.induct with
  | case1 => simp [linesWithEnds]
  | case2 cs ih =>
    rw [linesWithEnds]
    cases hlines : linesWithEnds cs with
    | nil => simp
    | cons line rest =>
      rw [hlines] at ih
      simpa using ih
  | case3 c cs hne hnil ih =>
    rw [linesWithEnds.eq_3 _ _ hne, hnil]
    simp
  | case4 c cs hne line ended rest hlines ih =>
    rw [hlines] at ih
    rw [linesWithEnds.eq_3 _ _ hne, hlines]
    cases rest with
    | nil => simp
    | cons next rest => simpa using ih

theorem flatMap_linesWithEnds (cs : List Char) :
    ((linesWithEnds cs).flatMap fun line => line.1 ++ if line.2 then ['\n'] else []) = cs := by
  induction cs using linesWithEnds.induct with
  | case1 => rfl
  | case2 cs ih => simp [linesWithEnds, ih]
  | case3 c cs hne hnil ih =>
    rw [hnil] at ih
    rw [linesWithEnds.eq_3 _ _ hne, hnil]
    simpa using ih
  | case4 c cs hne line ended rest hlines ih =>
    rw [hlines] at ih
    rw [linesWithEnds.eq_3 _ _ hne, hlines]
    simpa using ih

theorem words_flatMap_of_ended (change : List Char → List Char) {lines : List (List Char × Bool)}
    (h : ∀ line ∈ lines.dropLast, line.2 = true) :
    words (lines.flatMap fun line => change line.1 ++ if line.2 then ['\n'] else []) =
      lines.flatMap fun line => words (change line.1) := by
  induction lines with
  | nil => rfl
  | cons line lines ih =>
    cases lines with
    | nil =>
      obtain ⟨line, ended⟩ := line
      cases ended with
      | true => simpa using words_append_singleton (by decide) (change line)
      | false => simp
    | cons next rest =>
      have hended : line.2 = true := h line (by simp)
      have hrest := ih fun line hline => h line (by simpa using .inr hline)
      rw [List.flatMap_cons, hended, if_pos rfl, List.append_assoc, List.singleton_append,
        words_append (by decide), hrest]
      rfl

-- The words of a text are those of its lines, and remain so if each line keeps its own.
theorem words_linesWithEnds (cs : List Char) :
    ((linesWithEnds cs).flatMap fun line => words line.1) = words cs := by
  have hwords := words_flatMap_of_ended id (linesWithEnds_ended cs)
  simp only [id, flatMap_linesWithEnds] at hwords
  exact hwords.symm

theorem words_dropReturn (line : List Char) : words (dropReturn line) = words line := by
  rw [dropReturn]
  split
  case isFalse => rfl
  case isTrue hlast =>
    obtain ⟨front, rfl⟩ := List.getLast?_eq_some_iff.mp hlast
    rw [List.dropLast_concat, words_append_singleton (by decide)]

theorem words_lines (cs : List Char) : (lines cs).flatMap words = words cs := by
  rw [← words_linesWithEnds cs, lines, List.flatMap_map]
  refine List.flatMap_congr ?_
  rintro ⟨line, ended⟩ -
  cases ended with
  | true => exact words_dropReturn line
  | false => rfl

theorem allBlank_take_indentWidth {k : Nat} (h : k ≤ indentWidth cs) :
    allBlank (cs.take k) = true := by
  rw [allBlank, List.all_eq_true]
  intro c hc
  have htake : (cs.takeWhile isBlank ++ cs.dropWhile isBlank).take k =
      (cs.takeWhile isBlank).take k := List.take_append_of_le_length h
  rw [List.takeWhile_append_dropWhile] at htake
  rw [htake] at hc
  exact List.mem_takeWhile_imp (List.mem_of_mem_take hc)

theorem words_drop {k : Nat} (h : k ≤ indentWidth cs) : words (cs.drop k) = words cs := by
  rw [← words_append_of_allBlank (allBlank_take_indentWidth h) (cs.drop k), List.take_append_drop]

theorem commonIndent_le {ls : List (List Char)} {line : List Char} (hline : line ∈ ls)
    (h : allBlank line = false) : commonIndent ls ≤ indentWidth line := by
  rw [commonIndent]
  have hmem : indentWidth line ∈ (ls.filter (!allBlank ·)).map indentWidth :=
    List.mem_map_of_mem (List.mem_filter.mpr ⟨hline, by simp [h]⟩)
  cases hmin : ((ls.filter (!allBlank ·)).map indentWidth).min? with
  | none => exact Nat.zero_le _
  | some least => exact (List.min?_eq_some_iff.mp hmin).right _ hmem

theorem words_dedentBlock (block : List Char) : words (dedentBlock block) = words block := by
  rw [dedentBlock, joinLines, words_intercalate (by decide) (by decide), ← words_lines block,
    List.flatMap_map]
  refine List.flatMap_congr fun line hline => ?_
  split
  case isTrue hblank => rw [words_of_allBlank hblank, words_nil]
  case isFalse hblank => exact words_drop (commonIndent_le hline (by simpa using hblank))

end Lines

end ClassSplit.Text
