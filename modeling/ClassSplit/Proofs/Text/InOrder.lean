import ClassSplit.Text.Span

/-!
Spans that follow each other in a text, of which none is empty and none begins before the one in
front of it ends; and spans that do not cut each other.
-/

namespace ClassSplit.Span

variable {s t u : Span}

theorem covers_iff : s.covers t = true ↔ s.start ≤ t.start ∧ t.stop ≤ s.stop := by
  simp [covers]

-- Nothing of the one lies in the other.
def Beside (s t : Span) : Prop := s.stop ≤ t.start ∨ t.stop ≤ s.start

theorem Beside.symm (h : s.Beside t) : t.Beside s := Or.symm h

theorem Beside.mono {s' t' : Span} (h : s.Beside t) (hs : s.covers s' = true)
    (ht : t.covers t' = true) : s'.Beside t' := by
  rw [covers_iff] at hs ht
  unfold Beside at *
  omega

theorem Beside.ne (h : s.Beside t) (hs : s.start < s.stop) : s ≠ t := by
  rintro rfl
  unfold Beside at h
  omega

theorem Beside.not_covers (h : s.Beside t) (ht : t.start < t.stop) : ¬s.covers t = true := by
  intro hcovers
  exact (h.mono hcovers (covers_refl t)).ne ht rfl

-- They lie beside each other, or one lies in the other.
def Nested (s t : Span) : Prop := s.Beside t ∨ s.covers t = true ∨ t.covers s = true

theorem Nested.symm (h : s.Nested t) : t.Nested s := by
  obtain h | h | h := h
  · exact .inl h.symm
  · exact .inr (.inr h)
  · exact .inr (.inl h)

-- The spans lie between two offsets.
def InOrder (lo hi : Nat) : List Span → Prop
  | [] => lo ≤ hi
  | s :: spans => lo ≤ s.start ∧ s.start < s.stop ∧ InOrder s.stop hi spans

namespace InOrder

variable {lo mid hi : Nat} {s : Span} {spans others : List Span}

theorem le (h : InOrder lo hi spans) : lo ≤ hi := by
  induction spans generalizing lo with
  | nil => exact h
  | cons s spans ih =>
    obtain ⟨hlo, hlt, hrest⟩ := h
    have := ih hrest
    omega

theorem mono {lo' : Nat} (hle : lo' ≤ lo) (h : InOrder lo hi spans) : InOrder lo' hi spans := by
  cases spans with
  | nil => exact Nat.le_trans hle h
  | cons s spans => exact ⟨Nat.le_trans hle h.left, h.right⟩

theorem append (h : InOrder lo mid spans) (hothers : InOrder mid hi others) :
    InOrder lo hi (spans ++ others) := by
  induction spans generalizing lo with
  | nil => exact hothers.mono h
  | cons s spans ih => exact ⟨h.left, h.right.left, ih h.right.right⟩

theorem mem (h : InOrder lo hi spans) (hs : s ∈ spans) :
    lo ≤ s.start ∧ s.start < s.stop ∧ s.stop ≤ hi := by
  induction spans generalizing lo with
  | nil => cases hs
  | cons t spans ih =>
    obtain ⟨hlo, hlt, hrest⟩ := h
    cases List.mem_cons.mp hs with
    | inl heq =>
      subst heq
      exact ⟨hlo, hlt, hrest.le⟩
    | inr hmem =>
      obtain ⟨h₁, h₂, h₃⟩ := ih hrest hmem
      exact ⟨by omega, h₂, h₃⟩

theorem pairwise (h : InOrder lo hi spans) : spans.Pairwise (·.stop ≤ ·.start) := by
  induction spans generalizing lo with
  | nil => exact .nil
  | cons s spans ih =>
    refine List.pairwise_cons.mpr ⟨?_, ih h.right.right⟩
    intro t ht
    exact (h.right.right.mem ht).left

-- Two of the spans are at one place of the list, or they lie beside each other.
theorem eq_or_beside {α : Type} {f : α → Span} {xs : List α} (h : InOrder lo hi (xs.map f))
    {x y : α} (hx : x ∈ xs) (hy : y ∈ xs) : x = y ∨ (f x).Beside (f y) := by
  have hpairwise := List.pairwise_map.mp h.pairwise
  exact List.Pairwise.forall_of_forall_of_flip (R := fun x y => x = y ∨ (f x).Beside (f y))
    (fun _ _ => .inl rfl) (hpairwise.imp fun hle => .inr (.inl hle))
    (hpairwise.imp fun hle => .inr (.inr hle)) hx hy

theorem of_pairwise (hle : lo ≤ hi) (hspans : ∀ s ∈ spans, lo ≤ s.start ∧ s.start < s.stop ∧ s.stop ≤ hi)
    (h : spans.Pairwise (·.stop ≤ ·.start)) : InOrder lo hi spans := by
  induction spans generalizing lo with
  | nil => exact hle
  | cons s spans ih =>
    obtain ⟨hfirst, hrest⟩ := List.pairwise_cons.mp h
    obtain ⟨hlo, hlt, hhi⟩ := hspans s List.mem_cons_self
    refine ⟨hlo, hlt, ih hhi ?_ hrest⟩
    intro t ht
    exact ⟨hfirst t ht, (hspans t (List.mem_cons_of_mem _ ht)).right⟩

theorem sublist (h : InOrder lo hi spans) (hsub : others.Sublist spans) : InOrder lo hi others :=
  of_pairwise h.le (fun _ hs => h.mem (hsub.subset hs)) (h.pairwise.sublist hsub)

-- Only the ends of the first and the last span count as bounds.
theorem shrink {first last : Span} (h : InOrder lo hi spans) (hfirst : spans.head? = some first)
    (hlast : spans.getLast? = some last) : InOrder first.start last.stop spans := by
  have hstop : ∀ {lo : Nat} {spans : List Span}, InOrder lo hi spans →
      spans.getLast? = some last → InOrder lo last.stop spans := by
    intro lo spans h hlast
    induction spans generalizing lo with
    | nil => cases hlast
    | cons s spans ih =>
      refine ⟨h.left, h.right.left, ?_⟩
      cases spans with
      | nil =>
        have heq : s = last := by simpa using hlast
        exact heq ▸ Nat.le_refl _
      | cons t spans => exact ih h.right.right (by simpa using hlast)
  cases spans with
  | nil => cases hfirst
  | cons s spans =>
    have heq : s = first := by simpa using hfirst
    obtain ⟨-, hrest⟩ := hstop h hlast
    exact heq ▸ ⟨Nat.le_refl _, hrest⟩

end InOrder

end ClassSplit.Span
