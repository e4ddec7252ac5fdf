import ClassSplit.Proofs.Text.Solid
import ClassSplit.Text.Layout
import Mathlib.Data.List.TakeWhile

/-!
Where lines start and end. What is not blank never stands between the start of a line and a place
that the line is indented up to, nor between a place and the end of a line that is blank from there.
-/

namespace ClassSplit.Text

variable {text : List Char} {o o' e : Nat}

@[simp] theorem byteLength_reverse (cs : List Char) : byteLength cs.reverse = byteLength cs := by
  induction cs with
  | nil => rfl
  | cons c cs ih => simp [ih, Nat.add_comm]

-- A character that is not blank begins at the offset.
def Starts (text : List Char) (o : Nat) : Prop := ∃ c, charAt? o text = some c ∧ isBlank c = false

theorem mem_slice_of_charAt? {a b : Nat} {c : Char} (ha : isBoundary a text = true)
    (hb : isBoundary b text = true) (hao : a ≤ o) (hob : o < b) (h : charAt? o text = some c) :
    c ∈ slice text ⟨a, b⟩ := by
  rw [slice_eq_flatMap (by omega) ha hb, List.mem_flatMap]
  exact ⟨o, List.mem_range'_1.mpr (by omega), by simp [h]⟩

theorem starts_of_solid {span : Span} (hfits : span.FitsIn text) (h : Solid (slice text span)) :
    Starts text span.start := by
  obtain ⟨pre, mid, post, htext, hpre, hmid⟩ := exists_parts hfits.ordered hfits.start hfits.stop
  obtain ⟨c, rest, hslice, hc⟩ := h.first
  have hspan : span = ⟨byteLength pre, byteLength (pre ++ mid)⟩ := by rw [hpre, hmid]
  rw [hspan, htext, slice_eq] at hslice
  refine ⟨c, ?_, hc⟩
  have hat := charAt?_append pre (c :: rest ++ post) 0
  rw [← hpre, htext, hslice, List.append_assoc]
  simpa using hat

theorem Starts.lt_byteLength (h : Starts text o) : o < byteLength text := by
  obtain ⟨c, hc, -⟩ := h
  refine Nat.lt_of_not_le ?_
  intro hle
  have hat := charAt?_append text [] (o - byteLength text)
  rw [List.append_nil, Nat.add_sub_cancel' hle, hc] at hat
  cases hat

-- A blank text ends before what is not blank.
theorem le_of_allBlank (hstarts : Starts text o') (hoo : o ≤ o') (ho : isBoundary o text = true)
    (he : isBoundary e text = true) (h : allBlank (slice text ⟨o, e⟩) = true) : e ≤ o' := by
  obtain ⟨c, hc, hblank⟩ := hstarts
  refine Nat.le_of_not_lt ?_
  intro hlt
  have hmem := mem_slice_of_charAt? ho he hoo hlt hc
  rw [allBlank, List.all_eq_true] at h
  simp [h c hmem] at hblank

section LineStart

-- The start of the line is the start of the text, or follows the last newline before the offset.
theorem lineStart_split (h : isBoundary o text = true) :
    ∃ head tail post, text = head ++ tail ++ post ∧ byteLength head = lineStart text o ∧
      byteLength (head ++ tail) = o ∧ '\n' ∉ tail ∧ (head = [] ∨ ∃ front, head = front ++ ['\n']) := by
  obtain ⟨pre, post, rfl, rfl⟩ := isBoundary_iff.mp h
  let p : Char → Bool := (· != '\n')
  let tail := (pre.reverse.takeWhile p).reverse
  let head := (pre.reverse.dropWhile p).reverse
  have hpre : pre = head ++ tail := by
    have hsplit := congrArg List.reverse (List.takeWhile_append_dropWhile (p := p) (l := pre.reverse))
    rw [List.reverse_append, List.reverse_reverse] at hsplit
    exact hsplit.symm
  have hstart : byteLength head = lineStart (pre ++ post) (byteLength pre) := by
    have hlen : byteLength pre = byteLength head + byteLength (pre.reverse.takeWhile p) := by
      rw [← byteLength_reverse (pre.reverse.takeWhile p), ← byteLength_append]
      exact congrArg byteLength hpre
    rw [lineStart, takeBytes_append]
    change _ = byteLength pre - byteLength (pre.reverse.takeWhile p)
    omega
  refine ⟨head, tail, post, by rw [← hpre], hstart, by rw [← hpre], ?_, ?_⟩
  · intro hmem
    have := List.mem_takeWhile_imp (List.mem_reverse.mp hmem)
    simp [p] at this
  · cases hdrop : pre.reverse.dropWhile p with
    | nil => exact .inl (by simp [head, hdrop])
    | cons c rest =>
      have hc := List.head?_dropWhile_not p pre.reverse
      have hnewline : c = '\n' := by simpa [hdrop, p] using hc
      exact .inr ⟨rest.reverse, by simp [head, hdrop, hnewline]⟩

theorem lineStart_le (text : List Char) (o : Nat) : lineStart text o ≤ o := Nat.sub_le _ _

theorem isBoundary_lineStart (h : isBoundary o text = true) :
    isBoundary (lineStart text o) text = true := by
  obtain ⟨head, tail, post, htext, hstart, -⟩ := lineStart_split h
  rw [htext, List.append_assoc] at *
  exact hstart ▸ isBoundary_append head (tail ++ post)

-- The line of an offset starts behind each newline before the offset.
theorem le_lineStart {front back : List Char} (h : isBoundary o text = true)
    (htext : text = front ++ '\n' :: back) (hle : byteLength (front ++ ['\n']) ≤ o) :
    byteLength (front ++ ['\n']) ≤ lineStart text o := by
  obtain ⟨head, tail, post, hsplit, hstart, ho, htail, -⟩ := lineStart_split h
  refine Nat.le_of_not_lt ?_
  intro hlt
  have hsame : (front ++ ['\n']) ++ back = (head ++ tail) ++ post := by rw [← hsplit, htext]; simp
  obtain ⟨mid, hmid, -⟩ := exists_append_of_byteLength_le hsame (by omega)
  -- The newline cannot be in front of the line, and there is none on the line.
  cases List.append_eq_append_iff.mp hmid with
  | inl hfront =>
    obtain ⟨gap, hgap, htail'⟩ := hfront
    cases List.eq_nil_or_concat gap with
    | inl hnil =>
      subst hnil
      rw [List.append_nil] at hgap
      rw [hgap] at hlt
      omega
    | inr hconcat =>
      obtain ⟨gap', c, rfl⟩ := hconcat
      rw [List.concat_eq_append, ← List.append_assoc] at hgap
      have hlast := (List.append_inj' hgap rfl).right
      rw [htail'] at htail
      simp only [List.cons.injEq, and_true] at hlast
      exact htail (by simp [← hlast])
  | inr hhead =>
    obtain ⟨gap, hgap, -⟩ := hhead
    have hlen := congrArg byteLength hgap
    rw [byteLength_append (front ++ ['\n'])] at hlen
    omega

theorem allBlank_of_leadingIndent (h : (leadingIndent text o).isSome = true) :
    allBlank (slice text ⟨lineStart text o, o⟩) = true := by
  simp only [leadingIndent] at h
  split at h
  case isFalse => cases h
  case isTrue hall =>
    rw [allBlank, List.all_eq_true]
    intro c hc
    have hspace := List.all_eq_true.mp hall c hc
    rw [Bool.or_eq_true, beq_iff_eq, beq_iff_eq] at hspace
    cases hspace with
    | inl heq => rw [heq]; decide
    | inr heq => rw [heq]; decide

theorem allBlank_getD_leadingIndent (text : List Char) (o : Nat) :
    allBlank ((leadingIndent text o).getD []) = true := by
  cases hindent : leadingIndent text o with
  | none => rfl
  | some before =>
    have hblank := allBlank_of_leadingIndent (Option.isSome_of_eq_some hindent)
    simp only [leadingIndent] at hindent
    split at hindent
    case isTrue => exact Option.some.inj hindent ▸ hblank
    case isFalse => cases hindent

-- A solid text in front of an indented place lies on the lines before.
theorem stop_le_lineStart {span : Span} (hfits : span.FitsIn text)
    (hsolid : Solid (slice text span)) (ho : isBoundary o text = true) (hstop : span.stop ≤ o)
    (hindent : (leadingIndent text o).isSome = true) : span.stop ≤ lineStart text o := by
  refine Nat.le_of_not_lt ?_
  intro hlt
  have hblank := allBlank_of_leadingIndent hindent
  have hline := isBoundary_lineStart ho
  have hrest := slice_append (Nat.le_of_lt hlt) hstop hline hfits.stop ho
  cases Nat.lt_or_ge span.start (lineStart text o) with
  | inr hge =>
    have := le_of_allBlank (starts_of_solid hfits hsolid) hge hline ho hblank
    have hne := hsolid.ne_nil
    have hordered : span.start ≤ span.stop := hfits.ordered
    obtain ⟨start, stop⟩ := span
    have heq : stop = start := by
      simp only at *
      omega
    rw [heq, slice_point] at hne
    exact hne rfl
  | inl hstart =>
    -- The newline before the line is one of the solid text, and only blanks follow it there.
    obtain ⟨head, tail, post, htext, hhead, -, -, hnewline⟩ := lineStart_split ho
    have hslice := slice_append (Nat.le_of_lt hstart) (Nat.le_of_lt hlt) hfits.start hline hfits.stop
    obtain hnil | hfront := hnewline
    · rw [hnil, byteLength_nil] at hhead
      omega
    · obtain ⟨front, hfront⟩ := hfront
      have hlen : byteLength head = byteLength front + 1 := by
        rw [hfront, byteLength_append]
        rfl
      have hfrontBoundary : isBoundary (byteLength front) text = true := by
        rw [htext, hfront, List.append_assoc, List.append_assoc]
        exact isBoundary_append _ _
      have hnew : slice text ⟨byteLength front, lineStart text o⟩ = ['\n'] := by
        rw [← hhead, htext, hfront, List.append_assoc _ tail]
        exact slice_eq front ['\n'] (tail ++ post)
      have hinner := slice_append (by omega) (by omega) hfits.start hfrontBoundary hline
      rw [hnew] at hinner
      obtain ⟨c, hc, hcblank⟩ := hsolid.lines _ _ (by
        rw [← hslice, ← hinner, List.append_assoc]
        rfl)
      have hcAll : c ∈ slice text ⟨lineStart text o, o⟩ := by
        rw [← hrest]
        exact List.mem_append_left _ hc
      rw [allBlank, List.all_eq_true] at hblank
      simp [hblank c hcAll] at hcblank

end LineStart

section LineEnd

-- The end of the line is the end of the text, or follows a newline.
theorem lineEnd_split (h : isBoundary o text = true) :
    ∃ pre body post, text = pre ++ body ++ post ∧ byteLength pre = o ∧
      byteLength (pre ++ body) = lineEnd text o ∧
        (post = [] ∨ ∃ front, body = front ++ ['\n']) := by
  obtain ⟨pre, rest, rfl, rfl⟩ := isBoundary_iff.mp h
  let p : Char → Bool := (· != '\n')
  have hsplit : rest.takeWhile p ++ rest.dropWhile p = rest := List.takeWhile_append_dropWhile
  have hend : lineEnd (pre ++ rest) (byteLength pre) =
      byteLength pre + byteLength (rest.takeWhile p) + if '\n' ∈ rest then 1 else 0 := by
    rw [lineEnd, dropBytes_append]
  cases hdrop : rest.dropWhile p with
  | nil =>
    have hnone : '\n' ∉ rest := by
      rw [hdrop, List.append_nil] at hsplit
      intro hmem
      have := List.mem_takeWhile_imp (hsplit.symm ▸ hmem)
      simp [p] at this
    rw [hdrop, List.append_nil] at hsplit
    refine ⟨pre, rest, [], by simp, rfl, ?_, .inl rfl⟩
    rw [hend, if_neg hnone, hsplit, byteLength_append, Nat.add_zero]
  | cons c post =>
    have hc := List.head?_dropWhile_not p rest
    have hnewline : c = '\n' := by simpa [hdrop, p] using hc
    subst hnewline
    have hmem : '\n' ∈ rest := by
      rw [← hsplit, hdrop]
      simp
    refine ⟨pre, rest.takeWhile p ++ ['\n'], post, ?_, rfl, ?_, .inr ⟨_, rfl⟩⟩
    · rw [hdrop] at hsplit
      rw [List.append_assoc, List.append_assoc, List.singleton_append, hsplit]
    · rw [hend, if_pos hmem, byteLength_append, byteLength_append, ← Nat.add_assoc]
      rfl

theorem le_lineEnd (text : List Char) (o : Nat) : o ≤ lineEnd text o := by
  rw [lineEnd]
  omega

theorem isBoundary_lineEnd (h : isBoundary o text = true) :
    isBoundary (lineEnd text o) text = true := by
  obtain ⟨pre, body, post, htext, -, hend, -⟩ := lineEnd_split h
  rw [htext] at hend ⊢
  exact hend ▸ isBoundary_append (pre ++ body) post

-- What follows the end of a line lies on later lines.
theorem lineEnd_le_lineStart (ho : isBoundary o text = true) (ho' : isBoundary o' text = true)
    (hstarts : Starts text o') (hle : lineEnd text o ≤ o') :
    lineEnd text o ≤ lineStart text o' := by
  obtain ⟨pre, body, post, htext, -, hend, hlast⟩ := lineEnd_split ho
  obtain hnil | hfront := hlast
  · have hlt := hstarts.lt_byteLength
    have hwhole : byteLength text = lineEnd text o := by rw [← hend, htext, hnil, List.append_nil]
    omega
  · obtain ⟨front, rfl⟩ := hfront
    rw [← List.append_assoc] at hend
    have hnewline : text = (pre ++ front) ++ '\n' :: post := by rw [htext]; simp
    rw [← hend] at hle ⊢
    exact le_lineStart ho' hnewline hle

end LineEnd

section Lines

def FollowsNewline (text : List Char) (o : Nat) : Prop :=
  ∃ p, charAt? p text = some '\n' ∧ o = p + 1

def StartsLine (text : List Char) (o : Nat) : Prop := o = 0 ∨ FollowsNewline text o

-- The newline belongs to the line that it ends.
def EndsLine (text : List Char) (o : Nat) : Prop := o = byteLength text ∨ FollowsNewline text o

-- On the line of the offset only spaces and tabs stand in front of it.
def Leads (text : List Char) (o : Nat) : Prop :=
  ∃ start, StartsLine text start ∧ start ≤ o ∧
    ∀ c ∈ slice text ⟨start, o⟩, c = ' ' ∨ c = '\t'

theorem followsNewline_append (front post : List Char) :
    FollowsNewline (front ++ ['\n'] ++ post) (byteLength (front ++ ['\n'])) := by
  have hat := charAt?_append front (['\n'] ++ post) 0
  refine ⟨byteLength front, by simpa using hat, ?_⟩
  rw [byteLength_append]
  rfl

theorem startsLine_lineStart (h : isBoundary o text = true) : StartsLine text (lineStart text o) := by
  obtain ⟨head, tail, post, htext, hstart, -, -, hnewline⟩ := lineStart_split h
  obtain rfl | ⟨front, rfl⟩ := hnewline
  · exact .inl hstart.symm
  · rw [← hstart, htext, List.append_assoc _ tail]
    exact .inr (followsNewline_append front (tail ++ post))

theorem endsLine_lineEnd (h : isBoundary o text = true) : EndsLine text (lineEnd text o) := by
  obtain ⟨pre, body, post, htext, -, hend, hlast⟩ := lineEnd_split h
  obtain rfl | ⟨front, rfl⟩ := hlast
  · rw [← hend, htext, List.append_nil]
    exact .inl rfl
  · rw [← hend, htext, ← List.append_assoc]
    exact .inr (followsNewline_append (pre ++ front) post)

theorem leads_of_leadingIndent (ho : isBoundary o text = true)
    (h : (leadingIndent text o).isSome = true) : Leads text o := by
  refine ⟨_, startsLine_lineStart ho, lineStart_le text o, ?_⟩
  simp only [leadingIndent] at h
  split at h
  case isTrue hall => simpa using hall
  case isFalse => cases h

end Lines

end ClassSplit.Text
