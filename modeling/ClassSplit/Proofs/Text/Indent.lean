import ClassSplit.Proofs.Text.Words
import Mathlib.Data.List.Forall2

/-!
Shifting a block. Without its common indentation a block stands further to the left as a whole: every
line that is not blank loses the same number of blanks, and one of them begins at the margin. It
makes no difference whether the block has been shifted before. Main statement:
`shifted_dedentBlock`.
-/

namespace ClassSplit.Text

variable {block indent line : List Char} {ls : List (List Char)} {n : Nat}

section Lines

theorem linesWithEnds_append (h : '\n' ∉ line) (rest : List Char) :
    linesWithEnds (line ++ '\n' :: rest) = (line, true) :: linesWithEnds rest := by
  induction line with
  | nil => rfl
  | cons c line ih =>
    rw [List.mem_cons, not_or] at h
    rw [List.cons_append, linesWithEnds.eq_3 _ _ (Ne.symm h.left), ih h.right]

theorem linesWithEnds_of_not_mem (h : '\n' ∉ line) (hne : line ≠ []) :
    linesWithEnds line = [(line, false)] := by
  induction line with
  | nil => exact absurd rfl hne
  | cons c line ih =>
    rw [List.mem_cons, not_or] at h
    rw [linesWithEnds.eq_3 _ _ (Ne.symm h.left)]
    cases line with
    | nil => rfl
    | cons d line => rw [ih h.right (List.cons_ne_nil d line)]

-- A newline ends a line and does not stand in it.
theorem newline_not_mem_linesWithEnds (cs : List Char) :
    ∀ line ∈ linesWithEnds cs, '\n' ∉ line.1 := by
  induction cs using linesWithEnds.induct with
  | case1 => simp [linesWithEnds]
  | case2 cs ih => simpa [linesWithEnds] using ih
  | case3 c cs hne hnil ih =>
    rw [linesWithEnds.eq_3 _ _ hne, hnil]
    simpa using Ne.symm hne
  | case4 c cs hne line ended rest hlines ih =>
    rw [hlines] at ih
    rw [linesWithEnds.eq_3 _ _ hne, hlines]
    simpa [Ne.symm hne] using ih

theorem subset_of_mem_linesWithEnds {line : List Char × Bool} (h : line ∈ linesWithEnds block) :
    line.1 ⊆ block := by
  intro c hc
  rw [← flatMap_linesWithEnds block]
  exact List.mem_flatMap.mpr ⟨line, h, List.mem_append_left _ hc⟩

theorem dropReturn_of_not_mem (h : '\r' ∉ line) : dropReturn line = line := by
  rw [dropReturn, if_neg]
  intro hlast
  exact h (List.mem_of_getLast? hlast)

theorem lines_eq_map (h : '\r' ∉ block) : lines block = (linesWithEnds block).map (·.1) := by
  refine List.map_congr_left ?_
  rintro ⟨line, ended⟩ hline
  cases ended with
  | true => exact dropReturn_of_not_mem fun hmem => h (subset_of_mem_linesWithEnds hline hmem)
  | false => rfl

theorem not_mem_of_mem_lines (h : '\r' ∉ block) (hline : line ∈ lines block) :
    '\n' ∉ line ∧ '\r' ∉ line := by
  rw [lines_eq_map h] at hline
  obtain ⟨piece, hpiece, rfl⟩ := List.mem_map.mp hline
  exact ⟨newline_not_mem_linesWithEnds block piece hpiece,
    fun hmem => h (subset_of_mem_linesWithEnds hpiece hmem)⟩

theorem getLast?_linesWithEnds {piece : List Char × Bool} (h : piece ∈ linesWithEnds block)
    (hended : piece.2 = false) : (linesWithEnds block).getLast? = some piece := by
  have hfront := linesWithEnds_ended block
  obtain hnil | ⟨front, last, hlines⟩ := List.eq_nil_or_concat (linesWithEnds block)
  · rw [hnil] at h
    cases h
  · rw [List.concat_eq_append] at hlines
    rw [hlines, List.dropLast_concat] at hfront
    rw [hlines] at h ⊢
    obtain h | h := List.mem_append.mp h
    · rw [hfront piece h] at hended
      cases hended
    · rw [List.mem_singleton.mp h, List.getLast?_concat]

-- Lines that can be joined and found again: they have no ends in them, and the last one would not
-- be noticed if it were empty.
structure Joinable (ls : List (List Char)) : Prop where
  noEnd : ∀ line ∈ ls, '\n' ∉ line ∧ '\r' ∉ line
  last : ∀ line, ls.getLast? = some line → line ≠ []

theorem lines_joinLines (h : Joinable ls) : lines (joinLines ls) = ls := by
  induction ls with
  | nil => rfl
  | cons line ls ih =>
    obtain ⟨hnewline, hreturn⟩ := h.noEnd line List.mem_cons_self
    cases ls with
    | nil =>
      have hne : line ≠ [] := h.last line rfl
      simp [joinLines, lines, linesWithEnds_of_not_mem hnewline hne]
    | cons next ls =>
      have hrest : lines (joinLines (next :: ls)) = next :: ls :=
        ih ⟨(List.forall_mem_cons.mp h.noEnd).right, h.last⟩
      rw [joinLines] at hrest ⊢
      rw [List.intercalate_cons_cons, List.append_assoc, List.singleton_append, lines,
        linesWithEnds_append hnewline, List.map_cons, ← lines, hrest]
      simp [dropReturn_of_not_mem hreturn]

-- Any such pieces of a text with their ends are its lines.
theorem linesWithEnds_flatMap {pieces : List (List Char × Bool)}
    (hended : ∀ piece ∈ pieces.dropLast, piece.2 = true)
    (hnewline : ∀ piece ∈ pieces, '\n' ∉ piece.1)
    (hne : ∀ piece ∈ pieces, piece.2 = false → piece.1 ≠ []) :
    linesWithEnds (pieces.flatMap fun piece => piece.1 ++ if piece.2 then ['\n'] else []) =
      pieces := by
  induction pieces with
  | nil => rfl
  | cons piece pieces ih =>
    rw [List.forall_mem_cons] at hnewline hne
    obtain ⟨line, ended⟩ := piece
    cases ended with
    | true =>
      have hrest := ih (fun other hother => hended other ?_) hnewline.right hne.right
      · rw [List.flatMap_cons, if_pos rfl, List.append_assoc, List.singleton_append,
          linesWithEnds_append hnewline.left, hrest]
      · cases pieces with
        | nil => cases hother
        | cons next pieces => exact List.mem_cons_of_mem _ hother
    | false =>
      cases pieces with
      | nil => simpa using linesWithEnds_of_not_mem hnewline.left (hne.left rfl)
      | cons next pieces => exact absurd (hended (line, false) (by simp)) Bool.false_ne_true

end Lines

section Margin

-- One line is another one that stands further to the right by some blanks, or both are blank.
inductive ShiftedBy (n : Nat) : List Char → List Char → Prop
  | blank {line : List Char} (isBlank : allBlank line = true) : ShiftedBy n line []
  | moved {margin line : List Char} (blanks : allBlank margin = true) (width : margin.length = n)
      (stays : allBlank line = false) : ShiftedBy n (margin ++ line) line

theorem allBlank_drop_indentWidth {k : Nat} (h : k ≤ indentWidth line) :
    allBlank (line.drop k) = allBlank line := by
  rw [← List.take_append_drop k line, allBlank_append, allBlank_take_indentWidth h,
    List.take_append_drop, Bool.true_and]

theorem indentWidth_append (h : allBlank indent = true) (line : List Char) :
    indentWidth (indent ++ line) = indent.length + indentWidth line := by
  rw [allBlank, List.all_eq_true] at h
  rw [indentWidth, List.takeWhile_append_of_pos h, List.length_append, indentWidth]

theorem exists_indentWidth_eq (hline : line ∈ ls) (h : allBlank line = false) :
    ∃ first ∈ ls, allBlank first = false ∧ indentWidth first = commonIndent ls := by
  have hmem : indentWidth line ∈ (ls.filter (!allBlank ·)).map indentWidth :=
    List.mem_map_of_mem (List.mem_filter.mpr ⟨hline, by simp [h]⟩)
  cases hmin : ((ls.filter (!allBlank ·)).map indentWidth).min? with
  | none =>
    rw [List.min?_eq_none_iff.mp hmin] at hmem
    cases hmem
  | some least =>
    obtain ⟨first, hfirst, hwidth⟩ := List.mem_map.mp (List.min?_mem hmin)
    obtain ⟨hfirst, hstays⟩ := List.mem_filter.mp hfirst
    refine ⟨first, hfirst, by simpa using hstays, ?_⟩
    rw [commonIndent, hmin, hwidth]
    rfl

-- What is left of a line without the common indentation.
def dedentLine (n : Nat) (line : List Char) : List Char :=
  if allBlank line then [] else line.drop n

theorem shiftedBy_dedentLine (h : allBlank line = false → n ≤ indentWidth line) :
    ShiftedBy n line (dedentLine n line) := by
  rw [dedentLine]
  split
  case isTrue hblank => exact .blank hblank
  case isFalse hblank =>
    have hle := h (by simpa using hblank)
    have hwidth : indentWidth line ≤ line.length := List.takeWhile_prefix isBlank |>.length_le
    have hshifted : ShiftedBy n (line.take n ++ line.drop n) (line.drop n) := by
      refine .moved (allBlank_take_indentWidth hle) ?_ ?_
      · rw [List.length_take]
        omega
      · simpa [allBlank_drop_indentWidth hle] using hblank
    rwa [List.take_append_drop] at hshifted

theorem dedentLine_subset (n : Nat) (line : List Char) : dedentLine n line ⊆ line := by
  rw [dedentLine]
  split
  case isTrue => exact List.nil_subset line
  case isFalse => exact List.drop_subset n line

theorem allBlank_dedentLine (h : allBlank line = false → n ≤ indentWidth line) :
    allBlank (dedentLine n line) = allBlank line := by
  rw [dedentLine]
  split
  case isTrue hblank => rw [hblank]; rfl
  case isFalse hblank => exact allBlank_drop_indentWidth (h (by simpa using hblank))

theorem dedentLine_zero_dedentLine (h : allBlank line = false → n ≤ indentWidth line) :
    dedentLine 0 (dedentLine n line) = dedentLine n line := by
  rw [dedentLine, allBlank_dedentLine h, List.drop_zero, dedentLine]
  split
  all_goals rfl

-- A line with an indentation in front of it, unless it is blank.
def indentLine (indent line : List Char) : List Char :=
  if allBlank line then [] else indent ++ line

theorem allBlank_indentLine (h : allBlank indent = true) (line : List Char) :
    allBlank (indentLine indent line) = allBlank line := by
  rw [indentLine]
  split
  case isTrue hblank => rw [hblank]; rfl
  case isFalse => rw [allBlank_append, h, Bool.true_and]

theorem mem_indentLine {c : Char} (h : c ∈ indentLine indent line) : c ∈ indent ∨ c ∈ line := by
  rw [indentLine] at h
  split at h
  case isTrue => cases h
  case isFalse => exact List.mem_append.mp h

theorem dedentLine_indentLine (h : allBlank indent = true) (n : Nat) (line : List Char) :
    dedentLine (indent.length + n) (indentLine indent line) = dedentLine n line := by
  rw [dedentLine, allBlank_indentLine h, dedentLine, indentLine]
  split
  case isTrue => rfl
  case isFalse => rw [← List.drop_drop, List.drop_left]

theorem indentWidth_drop {k : Nat} (h : k ≤ indentWidth line) :
    indentWidth line = k + indentWidth (line.drop k) := by
  have hwidth : indentWidth line ≤ line.length := (List.takeWhile_prefix isBlank).length_le
  have hdrop := indentWidth_append (allBlank_take_indentWidth h) (line.drop k)
  rwa [List.take_append_drop, List.length_take, Nat.min_eq_left (by omega)] at hdrop

-- The lines at the margin are those that had nothing but the common indentation.
theorem exists_margin (hline : line ∈ ls) (h : allBlank line = false) :
    ∃ first ∈ ls.map (dedentLine (commonIndent ls)), allBlank first = false ∧
      indentWidth first = 0 := by
  obtain ⟨first, hfirst, hstays, hwidth⟩ := exists_indentWidth_eq hline h
  have hle : commonIndent ls ≤ indentWidth first := Nat.le_of_eq hwidth.symm
  refine ⟨_, List.mem_map_of_mem hfirst, ?_, ?_⟩
  · rw [allBlank_dedentLine fun _ => hle, hstays]
  · have hdrop := indentWidth_drop hle
    rw [dedentLine, if_neg (by simp [hstays])]
    omega

theorem commonIndent_map_dedentLine (hline : line ∈ ls) (h : allBlank line = false) :
    commonIndent (ls.map (dedentLine (commonIndent ls))) = 0 := by
  obtain ⟨first, hfirst, hstays, hwidth⟩ := exists_margin hline h
  exact Nat.eq_zero_of_le_zero (hwidth ▸ commonIndent_le hfirst hstays)

theorem commonIndent_map_indentLine (hindent : allBlank indent = true) (hline : line ∈ ls)
    (h : allBlank line = false) :
    commonIndent (ls.map (indentLine indent)) = indent.length + commonIndent ls := by
  have hwidth (other : List Char) (hother : allBlank other = false) :
      indentWidth (indentLine indent other) = indent.length + indentWidth other := by
    rw [indentLine, if_neg (by simp [hother]), indentWidth_append hindent]
  refine Nat.le_antisymm ?_ ?_
  · obtain ⟨first, hfirst, hstays, heq⟩ := exists_indentWidth_eq hline h
    rw [← heq, ← hwidth first hstays]
    exact commonIndent_le (List.mem_map_of_mem hfirst)
      (by rw [allBlank_indentLine hindent, hstays])
  · have hline' : indentLine indent line ∈ ls.map (indentLine indent) := List.mem_map_of_mem hline
    have h' : allBlank (indentLine indent line) = false := by rw [allBlank_indentLine hindent, h]
    obtain ⟨first, hfirst, hstays, heq⟩ := exists_indentWidth_eq hline' h'
    obtain ⟨other, hother, rfl⟩ := List.mem_map.mp hfirst
    rw [allBlank_indentLine hindent] at hstays
    rw [← heq, hwidth other hstays]
    exact Nat.add_le_add_left (commonIndent_le hother hstays) _

end Margin

section Block

theorem dedentBlock_eq (block : List Char) : dedentBlock block =
    joinLines ((lines block).map (dedentLine (commonIndent (lines block)))) := rfl

theorem lines_dedentBlock (hreturn : '\r' ∉ block) (hlast : (lines block).getLast? = some line)
    (h : allBlank line = false) :
    lines (dedentBlock block) = (lines block).map (dedentLine (commonIndent (lines block))) := by
  rw [dedentBlock_eq]
  refine lines_joinLines ⟨?_, ?_⟩
  · intro other hother
    obtain ⟨source, hsource, rfl⟩ := List.mem_map.mp hother
    obtain ⟨hnewline, hreturn⟩ := not_mem_of_mem_lines hreturn hsource
    exact ⟨fun hmem => hnewline (dedentLine_subset _ _ hmem),
      fun hmem => hreturn (dedentLine_subset _ _ hmem)⟩
  · intro other hother
    rw [List.getLast?_map, hlast, Option.map_some, Option.some.injEq] at hother
    have hle := commonIndent_le (List.mem_of_getLast? hlast) h
    have hstays := (allBlank_dedentLine fun _ => hle).trans h
    rw [hother] at hstays
    rintro rfl
    cases hstays

theorem linesWithEnds_indentBlock (hindent : '\n' ∉ indent)
    (hlast : ∀ piece ∈ linesWithEnds block, piece.2 = false → allBlank piece.1 = false) :
    linesWithEnds (indentBlock indent block) =
      (linesWithEnds block).map fun piece => (indentLine indent piece.1, piece.2) := by
  have heq : indentBlock indent block =
      ((linesWithEnds block).map fun piece => (indentLine indent piece.1, piece.2)).flatMap
        fun piece => piece.1 ++ if piece.2 then ['\n'] else [] := by
    rw [List.flatMap_map]
    rfl
  rw [heq]
  refine linesWithEnds_flatMap ?_ ?_ ?_
  · intro piece hpiece
    rw [← List.map_dropLast] at hpiece
    obtain ⟨source, hsource, rfl⟩ := List.mem_map.mp hpiece
    exact linesWithEnds_ended block source hsource
  · intro piece hpiece
    obtain ⟨source, hsource, rfl⟩ := List.mem_map.mp hpiece
    have hline := newline_not_mem_linesWithEnds block source hsource
    exact fun hmem => (mem_indentLine hmem).elim hindent hline
  · intro piece hpiece hended
    obtain ⟨source, hsource, rfl⟩ := List.mem_map.mp hpiece
    have hstays := hlast source hsource hended
    rw [indentLine, if_neg (by simp [hstays])]
    intro hnil
    rw [(List.append_eq_nil_iff.mp hnil).right] at hstays
    cases hstays

theorem lines_indentBlock (hnewline : '\n' ∉ indent) (hindent : '\r' ∉ indent)
    (hreturn : '\r' ∉ block) (hlast : (lines block).getLast? = some line)
    (h : allBlank line = false) :
    lines (indentBlock indent block) = (lines block).map (indentLine indent) := by
  have hends : ∀ piece ∈ linesWithEnds block, piece.2 = false → allBlank piece.1 = false := by
    intro piece hpiece hended
    rw [lines_eq_map hreturn, List.getLast?_map, getLast?_linesWithEnds hpiece hended,
      Option.map_some, Option.some.injEq] at hlast
    rw [hlast, h]
  rw [lines, linesWithEnds_indentBlock hnewline hends, lines_eq_map hreturn, List.map_map, List.map_map]
  refine List.map_congr_left ?_
  rintro ⟨source, ended⟩ hsource
  have hline : '\r' ∉ indentLine indent source := fun hmem =>
    (mem_indentLine hmem).elim hindent fun hmem =>
      hreturn (subset_of_mem_linesWithEnds hsource hmem)
  cases ended with
  | true => exact dropReturn_of_not_mem hline
  | false => rfl

-- A block is moved to the left line by line, and as far as possible.
theorem shifted_dedentBlock (hreturn : '\r' ∉ block) (hlast : (lines block).getLast? = some line)
    (h : allBlank line = false) :
    (∃ n, List.Forall₂ (ShiftedBy n) (lines block) (lines (dedentBlock block))) ∧
      (∃ c rest, c :: rest ∈ lines (dedentBlock block) ∧ isBlank c = false) ∧
        dedentBlock (dedentBlock block) = dedentBlock block ∧
          ∀ indent, (∀ c ∈ indent, c = ' ' ∨ c = '\t') →
            dedentBlock (indentBlock indent block) = dedentBlock block := by
  have hmem := List.mem_of_getLast? hlast
  have hlines := lines_dedentBlock hreturn hlast h
  have hle (other : List Char) (hother : other ∈ lines block) (hstays : allBlank other = false) :
      commonIndent (lines block) ≤ indentWidth other := commonIndent_le hother hstays
  refine ⟨⟨commonIndent (lines block), ?_⟩, ?_, ?_, ?_⟩
  · rw [hlines, List.forall₂_map_right_iff, List.forall₂_same]
    exact fun other hother => shiftedBy_dedentLine (hle other hother)
  · obtain ⟨first, hfirst, hstays, hwidth⟩ := exists_margin hmem h
    rw [← hlines] at hfirst
    cases first with
    | nil => cases hstays
    | cons c rest =>
      refine ⟨c, rest, hfirst, ?_⟩
      cases hc : isBlank c with
      | false => rfl
      | true => simp [indentWidth, hc] at hwidth
  · rw [dedentBlock_eq (dedentBlock block), hlines, commonIndent_map_dedentLine hmem h,
      List.map_map]
    refine congrArg joinLines (List.map_congr_left fun other hother => ?_)
    exact dedentLine_zero_dedentLine (hle other hother)
  · intro indent hindent
    have hblank : allBlank indent = true := by
      rw [allBlank, List.all_eq_true]
      intro c hc
      obtain rfl | rfl := hindent c hc
      all_goals decide
    have hnot (c : Char) (hspace : c ≠ ' ') (htab : c ≠ '\t') : c ∉ indent := fun hc =>
      (hindent c hc).elim hspace htab
    have hindented := lines_indentBlock (hnot '\n' (by decide) (by decide))
      (hnot '\r' (by decide) (by decide)) hreturn hlast h
    rw [dedentBlock_eq, hindented, commonIndent_map_indentLine hblank hmem h, List.map_map]
    refine congrArg joinLines (List.map_congr_left fun other _ => ?_)
    exact dedentLine_indentLine hblank _ other

-- The second line is blank, and the first one is not indented as deep as the third one.
def branchBlock : List Char := "  if (a)\n\t\n\t\t run();\n  else\n".toList

theorem shifted_dedentBlock_branch :
    '\r' ∉ branchBlock ∧ (lines branchBlock).getLast? = some "  else".toList ∧
      allBlank "  else".toList = false ∧
        (∃ n, List.Forall₂ (ShiftedBy n) (lines branchBlock) (lines (dedentBlock branchBlock))) ∧
          (∃ c rest, c :: rest ∈ lines (dedentBlock branchBlock) ∧ isBlank c = false) ∧
            dedentBlock (dedentBlock branchBlock) = dedentBlock branchBlock ∧
              dedentBlock (indentBlock "\t ".toList branchBlock) = dedentBlock branchBlock := by
  have hreturn : '\r' ∉ branchBlock := by decide
  have hlast : (lines branchBlock).getLast? = some "  else".toList := by decide
  have hstays : allBlank "  else".toList = false := by decide
  obtain ⟨hshifted, hmargin, hagain, hindented⟩ := shifted_dedentBlock hreturn hlast hstays
  exact ⟨hreturn, hlast, hstays, hshifted, hmargin, hagain, hindented _ (by simp)⟩

end Block

end ClassSplit.Text
