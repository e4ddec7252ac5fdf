import ClassSplit.Proofs.Patch.Rendering

/-!
Carrying out a patch whose replacements are laminar: it succeeds, and the text that comes out is the
rendering of the replacements, in whatever order and however often they were added.
-/

namespace ClassSplit

section Except

variable {ε α β : Type}

theorem bind_eq_ok {x : Except ε α} {f : α → Except ε β} {y : β} :
    (x >>= f) = .ok y ↔ ∃ a, x = .ok a ∧ f a = .ok y := by
  cases x with
  | error e => simp [bind, Except.bind]
  | ok a => simp [bind, Except.bind]

theorem bind_eq_error {x : Except ε α} {f : α → Except ε β} {e : ε} :
    (x >>= f) = .error e ↔ x = .error e ∨ ∃ a, x = .ok a ∧ f a = .error e := by
  cases x with
  | error e' => simp [bind, Except.bind]
  | ok a => simp [bind, Except.bind]

end Except

-- The parts of its span that a piece shows are parts of the text and lie in the span.
def Piece.FitsIn (text : List Char) (span : Span) : Piece → Prop
  | .text _ => True
  | .source part => part.FitsIn text ∧ span.covers part = true

instance (text : List Char) (span : Span) : (piece : Piece) → Decidable (piece.FitsIn text span)
  | .text _ => inferInstanceAs (Decidable True)
  | .source part => inferInstanceAs (Decidable (part.FitsIn text ∧ span.covers part = true))

namespace Replacement

structure Fits (text : List Char) (r : Replacement) : Prop where
  span : r.span.FitsIn text
  pieces : ∀ piece ∈ r.pieces, piece.FitsIn text r.span

instance (text : List Char) (r : Replacement) : Decidable (r.Fits text) :=
  decidable_of_iff (r.span.FitsIn text ∧ ∀ piece ∈ r.pieces, piece.FitsIn text r.span)
    ⟨fun ⟨h₁, h₂⟩ => ⟨h₁, h₂⟩, fun ⟨h₁, h₂⟩ => ⟨h₁, h₂⟩⟩

-- Two different members lie beside each other, or one encloses the other; there is at most one
-- insertion at each offset and at most one other replacement of each span.
structure Laminar (family : List Replacement) : Prop where
  nested : ∀ r ∈ family, ∀ s ∈ family, r ≠ s →
    r.beside s = true ∨ r.encloses s = true ∨ s.encloses r = true
  distinct : ∀ r ∈ family, ∀ s ∈ family, r.span = s.span → r = s

instance (family : List Replacement) : Decidable (Laminar family) :=
  decidable_of_iff
    ((∀ r ∈ family, ∀ s ∈ family, r ≠ s →
        r.beside s = true ∨ r.encloses s = true ∨ s.encloses r = true) ∧
      ∀ r ∈ family, ∀ s ∈ family, r.span = s.span → r = s)
    ⟨fun ⟨h₁, h₂⟩ => ⟨h₁, h₂⟩, fun ⟨h₁, h₂⟩ => ⟨h₁, h₂⟩⟩

theorem Laminar.mono {family inner : List Replacement} (h : Laminar family)
    (hsub : ∀ r ∈ inner, r ∈ family) : Laminar inner where
  nested r hr s hs := h.nested r (hsub r hr) s (hsub s hs)
  distinct r hr s hs := h.distinct r (hsub r hr) s (hsub s hs)

-- A search finds the same in two lists of the same members where no two of them pass the test.
theorem find?_congr_mem {α : Type} {p : α → Bool} {xs ys : List α} (hmem : ∀ x, x ∈ xs ↔ x ∈ ys)
    (hunique : ∀ x ∈ xs, ∀ y ∈ xs, p x = true → p y = true → x = y) :
    xs.find? p = ys.find? p := by
  cases hx : xs.find? p with
  | none =>
    have hnone := List.find?_eq_none.mp hx
    refine (List.find?_eq_none.mpr ?_).symm
    intro y hy
    exact hnone y ((hmem y).mpr hy)
  | some x =>
    have hpx := List.find?_some hx
    have hxs := List.mem_of_find?_eq_some hx
    cases hy : ys.find? p with
    | none => exact absurd hpx (List.find?_eq_none.mp hy x ((hmem x).mp hxs))
    | some y =>
      have hys := (hmem y).mpr (List.mem_of_find?_eq_some hy)
      rw [hunique x hxs y hys hpx (List.find?_some hy)]

-- What is enclosed begins before the end of what encloses it.
theorem start_lt_of_encloses {r s : Replacement} (hs : s.span.Ordered)
    (h : r.encloses s = true) : s.span.start < r.span.stop := by
  have ⟨_, _, _, hstop, hins⟩ := encloses_iff.mp h
  simp only [Span.Ordered] at hs
  omega

theorem encloses_trans {r s t : Replacement} (ht : t.span.Ordered) (hrs : r.encloses s = true)
    (hst : s.encloses t = true) : r.encloses t = true := by
  rw [encloses_iff] at *
  simp only [Span.Ordered] at ht
  omega

-- The first of two laminar replacements in normal order encloses the second or ends before it.
theorem encloses_or_stop_le {r s : Replacement} (hr : r.span.Ordered) (hs : s.span.Ordered)
    (hrs : r.precedes s = true) (hne : r.span ≠ s.span)
    (h : r.beside s = true ∨ r.encloses s = true ∨ s.encloses r = true) :
    r.encloses s = true ∨ r.span.stop ≤ s.span.start := by
  rw [precedes_iff] at hrs
  rw [Ne, Span.eq_iff] at hne
  simp only [Span.Ordered] at hr hs
  cases h
  case inl hbeside =>
    right
    simp only [beside, Bool.or_eq_true, decide_eq_true_eq] at hbeside
    omega
  case inr h =>
    cases h
    case inl h => exact .inl h
    case inr h =>
      -- What encloses `r` begins before it or is longer, so that it would precede `r`.
      rw [encloses_iff] at h
      omega

end Replacement

-- Where a list begins with what has a property and goes on with what has not, the two parts are
-- those that the property selects.
theorem takeWhile_eq_filter {α : Type} {p : α → Bool} {xs : List α}
    (h : xs.Pairwise fun x y => p y = true → p x = true) :
    xs.takeWhile p = xs.filter p ∧ xs.dropWhile p = xs.filter (!p ·) := by
  induction xs with
  | nil => exact ⟨rfl, rfl⟩
  | cons x xs ih =>
    have ⟨hx, hxs⟩ := List.pairwise_cons.mp h
    have ⟨htake, hdrop⟩ := ih hxs
    cases hp : p x
    case true => simp [hp, htake, hdrop]
    case false =>
      have hnone : ∀ y ∈ xs, p y = false := by
        intro y hy
        cases hpy : p y
        case false => rfl
        case true => exact absurd (hx y hy hpy) (by simp [hp])
      have hfilter : xs.filter p = [] := by simpa using hnone
      have hall : xs.filter (!p ·) = xs := by simpa using hnone
      simp [hp, hfilter, hall]

namespace Replacement

section First

-- A replacement in front of others in normal order.
variable {text : List Char} {r : Replacement} {rest : List Replacement}
  (hnormal : Patch.Normal (r :: rest)) (hlaminar : Laminar (r :: rest))
  (hordered : ∀ s ∈ r :: rest, s.span.Ordered)

include hnormal hlaminar hordered

theorem encloses_or_stop_le_of_mem {s : Replacement} (hs : s ∈ rest) :
    r.encloses s = true ∨ r.span.stop ≤ s.span.start := by
  have ⟨hprecedes, hne⟩ := (List.pairwise_cons.mp hnormal).left s hs
  have hrs : r ≠ s := fun h => hne (h ▸ rfl)
  exact encloses_or_stop_le (hordered r List.mem_cons_self)
    (hordered s (List.mem_cons_of_mem _ hs)) hprecedes hne
    (hlaminar.nested r List.mem_cons_self s (List.mem_cons_of_mem _ hs) hrs)

omit hlaminar in
theorem encloses_first_eq_false {s : Replacement} (hs : s ∈ rest) : s.encloses r = false := by
  have ⟨hprecedes, hne⟩ := (List.pairwise_cons.mp hnormal).left s hs
  have hr := hordered r List.mem_cons_self
  by_contra h
  rw [Bool.not_eq_false, encloses_iff] at h
  rw [precedes_iff] at hprecedes
  rw [Ne, Span.eq_iff] at hne
  simp only [Span.Ordered] at hr
  omega

-- Those that the first replacement encloses come directly after it.
theorem takeWhile_encloses :
    rest.takeWhile r.encloses = rest.filter r.encloses ∧
      rest.dropWhile r.encloses = rest.filter (!r.encloses ·) := by
  have hsorted := (List.pairwise_cons.mp hnormal).right
  refine takeWhile_eq_filter (hsorted.imp_of_mem ?_)
  intro s t hs ht hst henc
  have hstart := start_le_of_precedes hst.left
  have hlt := start_lt_of_encloses (hordered t (List.mem_cons_of_mem _ ht)) henc
  cases encloses_or_stop_le_of_mem hnormal hlaminar hordered hs
  case inl h => exact h
  case inr h => omega

theorem stop_le_of_not_encloses {s : Replacement} (hs : s ∈ rest.filter (!r.encloses ·)) :
    r.span.stop ≤ s.span.start := by
  have ⟨hmem, henc⟩ := List.mem_filter.mp hs
  cases encloses_or_stop_le_of_mem hnormal hlaminar hordered hmem
  case inl h => simp [h] at henc
  case inr h => exact h

theorem clash?_eq_none : r.clash? rest = none := by
  have hdrop := (takeWhile_encloses hnormal hlaminar hordered).right
  rw [clash?, hdrop, Option.filter_eq_none_iff]
  intro s hs
  have hstop := stop_le_of_not_encloses hnormal hlaminar hordered (List.mem_of_mem_head? hs)
  simpa using hstop

-- An enclosed replacement is not in the way of those beside it: what the others show is the same
-- without the first replacement and all that it encloses.
theorem filter_encloses_of_not_encloses {s : Replacement}
    (hs : s ∈ rest.filter (!r.encloses ·)) :
    (r :: rest).filter s.encloses = (rest.filter (!r.encloses ·)).filter s.encloses := by
  have hmem := (List.mem_filter.mp hs).left
  have hstop := stop_le_of_not_encloses hnormal hlaminar hordered hs
  have hr := encloses_first_eq_false hnormal hordered hmem
  rw [List.filter_cons_of_neg (by simp [hr]), List.filter_filter]
  refine List.filter_congr ?_
  intro t ht
  cases hst : s.encloses t
  case false => simp
  case true =>
    have hstart := (encloses_iff.mp hst).right.right.left
    have ht' := hordered t (List.mem_cons_of_mem _ ht)
    cases hrt : r.encloses t
    case false => simp
    case true =>
      have := start_lt_of_encloses ht' hrt
      omega

theorem shown_of_not_encloses {s : Replacement} (hs : s ∈ rest.filter (!r.encloses ·)) :
    shown text (r :: rest) s = shown text (rest.filter (!r.encloses ·)) s := by
  rw [shown, shown, filter_encloses_of_not_encloses hnormal hlaminar hordered hs]

theorem outermost_cons {cursor stop : Nat}
    (hin : ∀ s ∈ r :: rest, Span.covers ⟨cursor, stop⟩ s.span = true) :
    outermost (r :: rest) ⟨cursor, stop⟩ =
      r :: outermost (rest.filter (!r.encloses ·)) ⟨r.span.stop, stop⟩ := by
  have hfirst : ∀ s ∈ rest, s.encloses r = false := fun s hs =>
    encloses_first_eq_false hnormal hordered hs
  have hinside : (r :: rest).filter (Span.covers ⟨cursor, stop⟩ ·.span) = r :: rest :=
    List.filter_eq_self.mpr hin
  have hafter : (rest.filter (!r.encloses ·)).filter (Span.covers ⟨r.span.stop, stop⟩ ·.span) =
      rest.filter (!r.encloses ·) := by
    refine List.filter_eq_self.mpr ?_
    intro s hs
    have hstart := stop_le_of_not_encloses hnormal hlaminar hordered hs
    have hcovers := hin s (List.mem_cons_of_mem _ (List.mem_filter.mp hs).left)
    simp only [Span.covers, Bool.and_eq_true, decide_eq_true_eq] at hcovers ⊢
    exact ⟨hstart, hcovers.right⟩
  have hr : (r :: rest).any (·.encloses r) = false := by simpa using hfirst
  rw [outermost, outermost, hinside, hafter, List.filter_cons_of_pos (by simp [hr]),
    List.filter_filter]
  congr 1
  refine List.filter_congr ?_
  intro s hs
  cases hrs : r.encloses s
  case true => simp [hrs]
  case false =>
    have hiff : rest.any (·.encloses s) = (rest.filter (!r.encloses ·)).any (·.encloses s) := by
      rw [Bool.eq_iff_iff, List.any_eq_true, List.any_eq_true]
      constructor
      case mp =>
        rintro ⟨t, ht, hts⟩
        refine ⟨t, List.mem_filter.mpr ⟨ht, ?_⟩, hts⟩
        cases hrt : r.encloses t
        case false => rfl
        case true =>
          have := encloses_trans (hordered s (List.mem_cons_of_mem _ hs)) hrt hts
          simp [this] at hrs
      case mpr =>
        rintro ⟨t, ht, hts⟩
        exact ⟨t, (List.mem_filter.mp ht).left, hts⟩
    simp [hrs, hiff]

end First

section Layout

-- An outermost replacement in front of others that begin after it.
variable {text : List Char} {r : Replacement} {outer : List Replacement} {stop i : Nat}
  {shows : Replacement → List Char} (hr : r.span.Ordered)
  (hafter : ∀ s ∈ outer, r.span.stop ≤ s.span.start) (hne : ∀ s ∈ outer, r.span ≠ s.span)

theorem startingAt_eq_nil {outer : List Replacement} (h : ∀ s ∈ outer, s.span.start ≠ i) :
    startingAt outer i = [] := by
  have hinsert : outer.find? (insertsAt i) = none := by
    refine List.find?_eq_none.mpr ?_
    intro s hs hat
    exact h s hs (insertsAt_iff.mp hat).right
  have hreplace : outer.find? (replacesFrom i) = none := by
    refine List.find?_eq_none.mpr ?_
    intro s hs hat
    exact h s hs (replacesFrom_iff.mp hat).right
  simp [startingAt, hinsert, hreplace]

theorem holds_eq_false {s : Span} (h : i < s.start ∨ s.stop ≤ i) : s.holds i = false := by
  simp [Span.holds]; omega

include hr hafter

theorem contribution_before (hi : i < r.span.start) (hstop : i < stop) :
    contribution text (r :: outer) stop shows i = (Text.charAt? i text).toList := by
  have hstart : ∀ s ∈ r :: outer, i < s.span.start := by
    intro s hs
    simp only [Span.Ordered] at hr
    cases List.mem_cons.mp hs
    case inl h => exact h ▸ hi
    case inr h => have := hafter s h; omega
  have hnil := startingAt_eq_nil fun s hs => Nat.ne_of_gt (hstart s hs)
  have hany : (r :: outer).any (·.span.holds i) = false := by
    refine List.any_eq_false.mpr ?_
    intro s hs
    simp [holds_eq_false (.inl (hstart s hs))]
  rw [contribution, hnil, hany]
  simp [hstop]

theorem contribution_start (hreplace : r.span.start ≠ r.span.stop) :
    contribution text (r :: outer) stop shows r.span.start = shows r := by
  simp only [Span.Ordered] at hr
  have hinsert : outer.find? (insertsAt r.span.start) = none := by
    refine List.find?_eq_none.mpr ?_
    intro s hs hat
    have := (insertsAt_iff.mp hat).right
    have := hafter s hs
    omega
  have hfirst : insertsAt r.span.start r = false := by
    cases h : insertsAt r.span.start r
    case false => rfl
    case true => exact absurd (insertsAt_iff.mp h).left hreplace
  have hsecond : replacesFrom r.span.start r = true := replacesFrom_iff.mpr ⟨hreplace, rfl⟩
  have hholds : r.span.holds r.span.start = true := by simp [Span.holds]; omega
  simp [contribution, startingAt, hfirst, hinsert, hsecond, hholds]

omit hr in
theorem contribution_inside (hi : r.span.start < i) (hstop : i < r.span.stop) :
    contribution text (r :: outer) stop shows i = [] := by
  have hstart : ∀ s ∈ r :: outer, s.span.start ≠ i := by
    intro s hs
    cases List.mem_cons.mp hs
    case inl h => rw [h]; omega
    case inr h => have := hafter s h; omega
  have hholds : r.span.holds i = true := by simp [Span.holds]; omega
  rw [contribution, startingAt_eq_nil hstart]
  simp [hholds]

omit hr hafter in
theorem contribution_after (hi : r.span.stop ≤ i) (hafterStart : r.span.start < i) :
    contribution text (r :: outer) stop shows i = contribution text outer stop shows i := by
  have hinsert : insertsAt i r = false := by
    cases h : insertsAt i r
    case false => rfl
    case true => have := (insertsAt_iff.mp h).right; omega
  have hreplace : replacesFrom i r = false := by
    cases h : replacesFrom i r
    case false => rfl
    case true => have := (replacesFrom_iff.mp h).right; omega
  have hholds : r.span.holds i = false := holds_eq_false (.inr hi)
  simp [contribution, startingAt, hinsert, hreplace, hholds]

include hne

omit hr hafter in
theorem contribution_insertion (hinsert : r.span.start = r.span.stop) :
    contribution text (r :: outer) stop shows r.span.start =
      shows r ++ contribution text outer stop shows r.span.start := by
  have hfirst : insertsAt r.span.start r = true := insertsAt_iff.mpr ⟨hinsert, rfl⟩
  have hothers : outer.find? (insertsAt r.span.start) = none := by
    refine List.find?_eq_none.mpr ?_
    intro s hs hat
    have ⟨h₁, h₂⟩ := insertsAt_iff.mp hat
    exact hne s hs (Span.eq_iff.mpr (by omega))
  have hreplace : replacesFrom r.span.start r = false := by
    cases h : replacesFrom r.span.start r
    case false => rfl
    case true => exact absurd hinsert (replacesFrom_iff.mp h).left
  have hholds : r.span.holds r.span.start = false := holds_eq_false (.inr (by omega))
  simp [contribution, startingAt, hfirst, hothers, hreplace, hholds]

-- The text up to the first replacement, what it shows, and what the others make of the rest.
theorem flatMap_contribution_cons {cursor : Nat} (hcursor : cursor ≤ r.span.start)
    (hstop : r.span.stop ≤ stop) (hbegin : Text.isBoundary cursor text = true)
    (hstart : Text.isBoundary r.span.start text = true) :
    (List.range' cursor (stop - cursor + 1)).flatMap (contribution text (r :: outer) stop shows) =
      Text.slice text ⟨cursor, r.span.start⟩ ++ shows r ++
        (List.range' r.span.stop (stop - r.span.stop + 1)).flatMap
          (contribution text outer stop shows) := by
  have hr' : r.span.start ≤ r.span.stop := hr
  have hsplit : List.range' cursor (stop - cursor + 1) =
      List.range' cursor (r.span.start - cursor)
        ++ List.range' r.span.start (r.span.stop - r.span.start)
        ++ List.range' r.span.stop (stop - r.span.stop + 1) := by
    have h₁ : r.span.start = cursor + (r.span.start - cursor) := by omega
    have h₂ : r.span.stop = cursor + (r.span.start - cursor + (r.span.stop - r.span.start)) := by
      omega
    have hlen : stop - cursor + 1 = r.span.start - cursor + (r.span.stop - r.span.start)
        + (stop - r.span.stop + 1) := by omega
    rw [hlen, ← List.range'_append_1, ← List.range'_append_1, ← h₁, ← h₂]
  have hbefore : (List.range' cursor (r.span.start - cursor)).flatMap
      (contribution text (r :: outer) stop shows) = Text.slice text ⟨cursor, r.span.start⟩ := by
    rw [Text.slice_eq_flatMap hcursor hbegin hstart]
    refine List.flatMap_congr ?_
    intro i hi
    have ⟨hlo, hhi⟩ := List.mem_range'_1.mp hi
    exact contribution_before hr hafter (by omega) (by omega)
  rw [hsplit, List.flatMap_append, List.flatMap_append, hbefore]
  by_cases hinsert : r.span.start = r.span.stop
  case pos =>
    have hcount : r.span.stop - r.span.start = 0 := by omega
    have hrest : (List.range' (r.span.stop + 1) (stop - r.span.stop)).flatMap
        (contribution text (r :: outer) stop shows) =
          (List.range' (r.span.stop + 1) (stop - r.span.stop)).flatMap
            (contribution text outer stop shows) := by
      refine List.flatMap_congr ?_
      intro i hi
      have ⟨hlo, _⟩ := List.mem_range'_1.mp hi
      exact contribution_after (by omega) (by omega)
    have hpoint : contribution text (r :: outer) stop shows r.span.start =
        shows r ++ contribution text outer stop shows r.span.start :=
      contribution_insertion hne hinsert
    rw [hinsert] at hpoint
    rw [hcount, List.range'_succ, List.flatMap_cons, List.flatMap_cons, hrest, hpoint]
    simp [hinsert]
  case neg =>
    have ⟨n, hn⟩ : ∃ n, r.span.stop - r.span.start = n + 1 :=
      ⟨r.span.stop - r.span.start - 1, by omega⟩
    have hinside : (List.range' (r.span.start + 1) n).flatMap
        (contribution text (r :: outer) stop shows) = [] := by
      refine List.flatMap_eq_nil_iff.mpr ?_
      intro i hi
      have ⟨hlo, hhi⟩ := List.mem_range'_1.mp hi
      exact contribution_inside hafter (by omega) (by omega)
    have hrest : (List.range' r.span.stop (stop - r.span.stop + 1)).flatMap
        (contribution text (r :: outer) stop shows) =
          (List.range' r.span.stop (stop - r.span.stop + 1)).flatMap
            (contribution text outer stop shows) := by
      refine List.flatMap_congr ?_
      intro i hi
      have ⟨hlo, _⟩ := List.mem_range'_1.mp hi
      exact contribution_after (by omega) (by omega)
    rw [hn, List.range'_succ, List.flatMap_cons, hinside, contribution_start hr hafter hinsert,
      hrest]
    simp

end Layout

section Rendering

variable {text : List Char} {cursor stop : Nat}

theorem rendering_nil (hfits : Span.FitsIn ⟨cursor, stop⟩ text) :
    rendering text [] ⟨cursor, stop⟩ = Text.slice text ⟨cursor, stop⟩ := by
  have hle : cursor ≤ stop := hfits.ordered
  have houter : outermost [] ⟨cursor, stop⟩ = [] := rfl
  have hchar : ∀ i, contribution text [] stop (shown text []) i =
      if i < stop then (Text.charAt? i text).toList else [] := by
    intro i
    simp [contribution, startingAt]
  have hlast : contribution text [] stop (shown text []) stop = [] := by simp [hchar]
  have hrange : List.range' cursor (stop - cursor + 1) =
      List.range' cursor (stop - cursor) ++ [stop] := by
    rw [← List.range'_append_1]
    simp [Nat.add_sub_cancel' hle]
  rw [rendering_eq, houter, Text.slice_eq_flatMap hle hfits.start hfits.stop]
  simp only [Span.length]
  rw [hrange, List.flatMap_append, List.flatMap_singleton, hlast, List.append_nil]
  refine List.flatMap_congr ?_
  intro i hi
  have hhi := (List.mem_range'_1.mp hi).right
  have : i < stop := by omega
  simp [hchar, this]

theorem rendering_cons {r : Replacement} {rest : List Replacement}
    (hnormal : Patch.Normal (r :: rest)) (hlaminar : Laminar (r :: rest))
    (hfits : ∀ s ∈ r :: rest, s.Fits text)
    (hin : ∀ s ∈ r :: rest, Span.covers ⟨cursor, stop⟩ s.span = true)
    (hbegin : Text.isBoundary cursor text = true) :
    rendering text (r :: rest) ⟨cursor, stop⟩ =
      Text.slice text ⟨cursor, r.span.start⟩ ++ shown text (r :: rest) r ++
        rendering text (rest.filter (!r.encloses ·)) ⟨r.span.stop, stop⟩ := by
  have hordered : ∀ s ∈ r :: rest, s.span.Ordered := fun s hs => (hfits s hs).span.ordered
  have hr := hfits r List.mem_cons_self
  have hcovers := hin r List.mem_cons_self
  simp only [Span.covers, Bool.and_eq_true, decide_eq_true_eq] at hcovers
  have hafter : ∀ s ∈ outermost (rest.filter (!r.encloses ·)) ⟨r.span.stop, stop⟩,
      r.span.stop ≤ s.span.start := fun s hs =>
    stop_le_of_not_encloses hnormal hlaminar hordered (mem_outermost.mp hs).left
  have hne : ∀ s ∈ outermost (rest.filter (!r.encloses ·)) ⟨r.span.stop, stop⟩,
      r.span ≠ s.span := fun s hs =>
    ((List.pairwise_cons.mp hnormal).left s
      (List.mem_filter.mp (mem_outermost.mp hs).left).left).right
  rw [rendering_eq, outermost_cons hnormal hlaminar hordered hin]
  simp only [Span.length]
  rw [flatMap_contribution_cons hr.span.ordered hafter hne hcovers.left hcovers.right hbegin
    hr.span.start, rendering_eq]
  congr 1
  refine List.flatMap_congr ?_
  intro i _
  refine contribution_congr ?_
  intro s hs
  exact shown_of_not_encloses hnormal hlaminar hordered (mem_outermost.mp hs).left

end Rendering

-- Of the outermost members of a laminar family at most one replaces the text from an offset on.
theorem eq_of_replacesFrom {family : List Replacement} {span : Span} {offset : Nat}
    (hlaminar : Laminar family) (hordered : ∀ r ∈ family, r.span.Ordered) {r s : Replacement}
    (hr : r ∈ outermost family span) (hs : s ∈ outermost family span)
    (hroff : replacesFrom offset r = true) (hsoff : replacesFrom offset s = true) : r = s := by
  have ⟨hrmem, hrcov, hrouter⟩ := mem_outermost.mp hr
  have ⟨hsmem, hscov, hsouter⟩ := mem_outermost.mp hs
  have ⟨hrne, hrstart⟩ := replacesFrom_iff.mp hroff
  have ⟨hsne, hsstart⟩ := replacesFrom_iff.mp hsoff
  have hro := hordered r hrmem
  have hso := hordered s hsmem
  simp only [Span.Ordered] at hro hso
  by_contra hne
  cases hlaminar.nested r hrmem s hsmem hne
  case inl h =>
    simp only [beside, Bool.or_eq_true, decide_eq_true_eq] at h
    omega
  case inr h =>
    cases h
    case inl h => simp [hsouter r hrmem hrcov] at h
    case inr h => simp [hrouter s hsmem hscov] at h

-- The rendering depends only on which replacements there are, not on how they are listed.
theorem rendering_congr_mem {text : List Char} {f g : List Replacement} {span : Span}
    (hmem : ∀ r, r ∈ f ↔ r ∈ g) (hlaminar : Laminar f) (hordered : ∀ r ∈ f, r.span.Ordered) :
    rendering text f span = rendering text g span := by
  induction hn : f.length using Nat.strongRecOn generalizing f g span
  case ind n ih =>
  subst hn
  have houter : ∀ r, r ∈ outermost f span ↔ r ∈ outermost g span := by
    intro r
    simp only [mem_outermost, hmem]
  have hinsert : ∀ i, (outermost f span).find? (insertsAt i) =
      (outermost g span).find? (insertsAt i) := by
    intro i
    refine find?_congr_mem houter ?_
    intro r hr s hs hri hsi
    have ⟨hr₁, hr₂⟩ := insertsAt_iff.mp hri
    have ⟨hs₁, hs₂⟩ := insertsAt_iff.mp hsi
    exact hlaminar.distinct r (mem_outermost.mp hr).left s (mem_outermost.mp hs).left
      (Span.eq_iff.mpr (by omega))
  have hreplace : ∀ i, (outermost f span).find? (replacesFrom i) =
      (outermost g span).find? (replacesFrom i) := by
    intro i
    refine find?_congr_mem houter ?_
    intro r hr s hs
    exact eq_of_replacesFrom hlaminar hordered hr hs
  have hany : ∀ i, (outermost f span).any (·.span.holds i) =
      (outermost g span).any (·.span.holds i) := by
    intro i
    rw [Bool.eq_iff_iff, List.any_eq_true, List.any_eq_true]
    simp only [houter]
  rw [rendering_eq, rendering_eq]
  congr 1
  funext i
  have hswap : contribution text (outermost f span) span.stop (shown text f) i =
      contribution text (outermost g span) span.stop (shown text f) i := by
    simp only [contribution, startingAt, hinsert, hreplace, hany]
  rw [hswap]
  refine contribution_congr ?_
  intro r hr
  have hrf := (mem_outermost.mp ((houter r).mpr hr)).left
  have hnested : ∀ part, rendering text (f.filter r.encloses) part =
      rendering text (g.filter r.encloses) part := by
    intro part
    refine ih _ (length_filter_encloses_lt hrf) (by simp [hmem])
      (hlaminar.mono fun s hs => (List.mem_filter.mp hs).left)
      (fun s hs => hordered s (List.mem_filter.mp hs).left) rfl
  rw [shown, shown]
  congr 1
  funext piece
  cases piece with
  | text => rfl
  | source part => exact hnested part

-- Only the replacements that lie in the span matter.
theorem rendering_congr_covers {text : List Char} {f g : List Replacement} {span : Span}
    (hmem : ∀ r : Replacement, span.covers r.span = true → (r ∈ f ↔ r ∈ g))
    (hlaminar : Laminar f) (hordered : ∀ r ∈ f, r.span.Ordered) :
    rendering text f span = rendering text g span := by
  rw [← rendering_filter_covers text f, ← rendering_filter_covers text g]
  refine rendering_congr_mem (fun r => ?_) (hlaminar.mono fun r hr => (List.mem_filter.mp hr).left)
    fun r hr => hordered r (List.mem_filter.mp hr).left
  rw [List.mem_filter, List.mem_filter]
  exact and_congr_left (hmem r)

end Replacement

namespace Patch

open Replacement

variable {text : List Char}

-- The pieces of a replacement, given that the patches that it encloses can be carried out.
theorem splicePieces_eq {span : Span} {nested : List Replacement} {pieces : List Piece}
    (hcovers : ∀ part, Piece.source part ∈ pieces → span.covers part = true)
    (hsplice : ∀ part, Piece.source part ∈ pieces →
      splice text part.start part.stop (nested.filter (part.covers ·.span)) =
        .ok (rendering text nested part)) :
    splicePieces text span nested pieces =
      .ok (pieces.flatMap fun
        | .text new => new.toList
        | .source part => rendering text nested part) := by
  induction pieces with
  | nil => rw [splicePieces]; rfl
  | cons piece pieces ih =>
    have hrest := ih (fun part h => hcovers part (List.mem_cons_of_mem _ h))
      (fun part h => hsplice part (List.mem_cons_of_mem _ h))
    cases piece
    case text new =>
      rw [splicePieces, hrest]
      rfl
    case source part =>
      rw [splicePieces, if_pos (hcovers part List.mem_cons_self),
        hsplice part List.mem_cons_self, hrest]
      rfl

-- By induction on the number of replacements: the nested ones of a replacement and those after it
-- are fewer, and both keep the normal order.
theorem splice_eq_rendering {rs : List Replacement} {cursor stop : Nat} (hnormal : Normal rs)
    (hlaminar : Laminar rs) (hfits : ∀ r ∈ rs, r.Fits text)
    (hspan : Span.FitsIn ⟨cursor, stop⟩ text)
    (hin : ∀ r ∈ rs, Span.covers ⟨cursor, stop⟩ r.span = true) :
    splice text cursor stop rs = .ok (rendering text rs ⟨cursor, stop⟩) := by
  induction hn : rs.length using Nat.strongRecOn generalizing rs cursor stop
  case ind n ih =>
  subst hn
  cases rs with
  | nil => rw [splice, rendering_nil hspan]
  | cons r rest =>
    have hordered : ∀ s ∈ r :: rest, s.span.Ordered := fun s hs => (hfits s hs).span.ordered
    obtain ⟨htake, hdrop⟩ := takeWhile_encloses hnormal hlaminar hordered
    have hclash := clash?_eq_none hnormal hlaminar hordered
    have hrest : Normal rest := (List.pairwise_cons.mp hnormal).right
    have hr := hfits r List.mem_cons_self
    have hcovers := hin r List.mem_cons_self
    simp only [Span.covers, Bool.and_eq_true, decide_eq_true_eq] at hcovers
    have hnested : (r :: rest).filter r.encloses = rest.filter r.encloses := by simp
    have hpieces : splicePieces text r.span (rest.filter r.encloses) r.pieces =
        .ok (shown text (r :: rest) r) := by
      rw [shown, hnested]
      refine splicePieces_eq (fun part h => (hr.pieces (.source part) h).right) ?_
      intro part hpart
      have hsub : ∀ s ∈ (rest.filter r.encloses).filter (part.covers ·.span), s ∈ r :: rest :=
        fun s hs => List.mem_cons_of_mem _
          (List.mem_filter.mp (List.mem_filter.mp hs).left).left
      have hlen : ((rest.filter r.encloses).filter (part.covers ·.span)).length
          < (r :: rest).length :=
        Nat.lt_succ_of_le (Nat.le_trans (List.length_filter_le _ _) (List.length_filter_le _ _))
      rw [← rendering_filter_covers]
      exact ih _ hlen ((hrest.filter _).filter _) (hlaminar.mono hsub)
        (fun s hs => hfits s (hsub s hs)) (hr.pieces (.source part) hpart).left
        (fun s hs => (List.mem_filter.mp hs).right) rfl
    have hafter : splice text r.span.stop stop (rest.filter (!r.encloses ·)) =
        .ok (rendering text (rest.filter (!r.encloses ·)) ⟨r.span.stop, stop⟩) := by
      have hsub : ∀ s ∈ rest.filter (!r.encloses ·), s ∈ r :: rest := fun s hs =>
        List.mem_cons_of_mem _ (List.mem_filter.mp hs).left
      have hlen : (rest.filter (!r.encloses ·)).length < (r :: rest).length :=
        Nat.lt_succ_of_le (List.length_filter_le _ _)
      refine ih _ hlen (hrest.filter _) (hlaminar.mono hsub)
        (fun s hs => hfits s (hsub s hs)) ⟨hcovers.right, hr.span.stop, hspan.stop⟩ ?_ rfl
      intro s hs
      have hstart := stop_le_of_not_encloses hnormal hlaminar hordered hs
      have hs' := hin s (hsub s hs)
      simp only [Span.covers, Bool.and_eq_true, decide_eq_true_eq] at hs' ⊢
      exact ⟨hstart, hs'.right⟩
    rw [splice, hclash, htake, hdrop, hpieces, hafter,
      rendering_cons hnormal hlaminar hfits hin hspan.start]
    rfl

theorem misfit?_eq_none {r : Replacement} (h : r.span.FitsIn text) : r.misfit? text = none := by
  have hstop := Text.le_byteLength_of_isBoundary h.stop
  have hordered : r.span.start ≤ r.span.stop := h.ordered
  have hin : ¬(Text.byteLength text < r.span.stop ∨ r.span.stop < r.span.start) := by omega
  rw [misfit?, if_neg hin, if_pos ⟨h.start, h.stop⟩]

-- A patch of laminar replacements that fit the text can be carried out.
theorem apply_eq_of_laminar {p : Patch} {source : String}
    (hfits : ∀ r ∈ p.replacements, r.Fits source.toList) (hlaminar : Laminar p.replacements) :
    p.apply source =
      .ok (String.ofList
        (rendering source.toList p.replacements ⟨0, Text.byteLength source.toList⟩)) := by
  have hmem : ∀ r, r ∈ p.normalize.replacements ↔ r ∈ p.replacements := fun _ =>
    mem_normalize hlaminar.distinct
  have hfits' : ∀ r ∈ p.normalize.replacements, r.Fits source.toList := fun r hr =>
    hfits r ((hmem r).mp hr)
  have hlaminar' : Laminar p.normalize.replacements := hlaminar.mono fun r hr => (hmem r).mp hr
  have hnone : p.normalize.replacements.findSome? (·.misfit? source.toList) = none := by
    refine List.findSome?_eq_none_iff.mpr ?_
    intro r hr
    exact misfit?_eq_none (hfits' r hr).span
  have hwhole : Span.FitsIn ⟨0, Text.byteLength source.toList⟩ source.toList :=
    ⟨Nat.zero_le _, Text.isBoundary_zero _, Text.isBoundary_byteLength _⟩
  have hin : ∀ r ∈ p.normalize.replacements,
      Span.covers ⟨0, Text.byteLength source.toList⟩ r.span = true := by
    intro r hr
    have := Text.le_byteLength_of_isBoundary (hfits' r hr).span.stop
    simpa [Span.covers] using this
  have hsplice := splice_eq_rendering (normal_normalize hlaminar.distinct) hlaminar' hfits'
    hwhole hin
  have hcongr : rendering source.toList p.normalize.replacements
      ⟨0, Text.byteLength source.toList⟩ =
        rendering source.toList p.replacements ⟨0, Text.byteLength source.toList⟩ :=
    rendering_congr_mem hmem hlaminar' fun r hr => (hfits' r hr).span.ordered
  simp only [apply, hnone, hsplice, hcongr]
  rfl

-- The outcome is the rendering of the replacements, listed in any way.
theorem apply_eq_rendering {p : Patch} {source : String} {family : List Replacement}
    (hfamily : ∀ r, r ∈ family ↔ r ∈ p.replacements)
    (hfits : ∀ r ∈ family, r.Fits source.toList) (hlaminar : Laminar family) :
    p.apply source =
      .ok (String.ofList
        (rendering source.toList family ⟨0, Text.byteLength source.toList⟩)) := by
  have hfits' : ∀ r ∈ p.replacements, r.Fits source.toList := fun r hr =>
    hfits r ((hfamily r).mpr hr)
  have hlaminar' : Laminar p.replacements := hlaminar.mono fun r hr => (hfamily r).mpr hr
  rw [apply_eq_of_laminar hfits' hlaminar',
    rendering_congr_mem hfamily hlaminar fun r hr => (hfits r hr).span.ordered]

-- A template around an inner replacement, an insertion before it and a replacement that it drops.
theorem apply_template :
    (⟨[⟨⟨4, 5⟩, [.text "get()"]⟩, ⟨⟨0, 9⟩, [.text "set(", .source ⟨4, 9⟩, .text ")"]⟩,
        ⟨⟨0, 1⟩, [.text "m"]⟩, ⟨⟨0, 0⟩, [.text "// set\n"]⟩]⟩ : Patch).apply "n = n + 1;" =
      .ok (String.ofList
        (rendering "n = n + 1;".toList
          [⟨⟨0, 0⟩, [.text "// set\n"]⟩, ⟨⟨0, 1⟩, [.text "m"]⟩,
            ⟨⟨0, 9⟩, [.text "set(", .source ⟨4, 9⟩, .text ")"]⟩, ⟨⟨4, 5⟩, [.text "get()"]⟩]
          ⟨0, 10⟩)) :=
  apply_eq_rendering (by simp; tauto) (by decide) (by decide)

example :
    (⟨[⟨⟨4, 5⟩, [.text "get()"]⟩, ⟨⟨0, 9⟩, [.text "set(", .source ⟨4, 9⟩, .text ")"]⟩,
        ⟨⟨0, 1⟩, [.text "m"]⟩, ⟨⟨0, 0⟩, [.text "// set\n"]⟩]⟩ : Patch).apply "n = n + 1;" =
      .ok "// set\nset(get() + 1);" := by
  cbv

end Patch

end ClassSplit
