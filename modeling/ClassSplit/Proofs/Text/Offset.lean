import ClassSplit.Text.Offset

/-!
Offsets that fall between two characters, and the text between two of them.
-/

namespace ClassSplit

namespace Text

variable {text pre mid post : List Char} {a b c : Nat}

@[simp] theorem isBoundary_zero (text : List Char) : isBoundary 0 text = true := by
  cases text <;> rfl

theorem isBoundary_append (pre post : List Char) :
    isBoundary (byteLength pre) (pre ++ post) = true := by
  induction pre with
  | nil => simp
  | cons c pre ih =>
    have hc := c.utf8Size_pos
    have ⟨n, hn⟩ : ∃ n, c.utf8Size + byteLength pre = n + 1 := ⟨c.utf8Size + byteLength pre - 1, by omega⟩
    have hsub : n + 1 - c.utf8Size = byteLength pre := by omega
    rw [byteLength_cons, hn, List.cons_append, isBoundary, hsub, ih]
    simp only [Bool.and_true, decide_eq_true_eq]
    omega

-- An offset is a boundary exactly if it is the length of some beginning of the text.
theorem isBoundary_iff :
    isBoundary a text = true ↔ ∃ pre post, text = pre ++ post ∧ byteLength pre = a := by
  constructor
  case mp =>
    intro h
    exact ⟨takeBytes a text, dropBytes a text, (takeBytes_append_dropBytes a text).symm,
      byteLength_takeBytes h⟩
  case mpr =>
    intro ⟨pre, post, htext, ha⟩
    subst htext ha
    exact isBoundary_append pre post

theorem isBoundary_byteLength (text : List Char) : isBoundary (byteLength text) text = true := by
  have h := isBoundary_append text []
  rwa [List.append_nil] at h

theorem le_byteLength_of_isBoundary (h : isBoundary a text = true) : a ≤ byteLength text := by
  have ⟨pre, post, htext, ha⟩ := isBoundary_iff.mp h
  rw [htext, byteLength_append, ← ha]
  exact Nat.le_add_right _ _

-- Two beginnings of one text: the shorter is a beginning of the longer.
theorem exists_append_of_byteLength_le {xs ys us vs : List Char} (h : xs ++ ys = us ++ vs)
    (hle : byteLength xs ≤ byteLength us) : ∃ mid, us = xs ++ mid ∧ ys = mid ++ vs := by
  cases List.append_eq_append_iff.mp h
  case inl h =>
    have ⟨mid, hus, hys⟩ := h
    exact ⟨mid, hus, hys⟩
  case inr h =>
    have ⟨mid, hxs, hvs⟩ := h
    have hmid : mid = [] := by
      cases mid with
      | nil => rfl
      | cons d mid =>
        have hd := d.utf8Size_pos
        rw [hxs, byteLength_append, byteLength_cons] at hle
        omega
    subst hmid
    exact ⟨[], by simpa using hxs.symm, by simpa using hvs.symm⟩

-- Two boundaries cut the text into three parts.
theorem exists_parts (hab : a ≤ b) (ha : isBoundary a text = true) (hb : isBoundary b text = true) :
    ∃ pre mid post, text = pre ++ mid ++ post ∧ byteLength pre = a ∧
      byteLength (pre ++ mid) = b := by
  have ⟨pre, post₁, h₁, hpre⟩ := isBoundary_iff.mp ha
  have ⟨front, post, h₂, hfront⟩ := isBoundary_iff.mp hb
  have hle : byteLength pre ≤ byteLength front := by omega
  have ⟨mid, hmid, _⟩ := exists_append_of_byteLength_le (h₁ ▸ h₂ : pre ++ post₁ = front ++ post) hle
  subst hmid
  exact ⟨pre, mid, post, h₂, hpre, hfront⟩

theorem slice_eq (pre mid post : List Char) :
    slice (pre ++ mid ++ post) ⟨byteLength pre, byteLength (pre ++ mid)⟩ = mid := by
  have hlen : byteLength (pre ++ mid) - byteLength pre = byteLength mid := by simp
  rw [slice, List.append_assoc, dropBytes_append, Span.length, hlen, takeBytes_append]

@[simp] theorem slice_point (text : List Char) (a : Nat) : slice text ⟨a, a⟩ = [] := by
  simp [slice, Span.length]

theorem slice_append (hab : a ≤ b) (hbc : b ≤ c) (ha : isBoundary a text = true)
    (hb : isBoundary b text = true) (hc : isBoundary c text = true) :
    slice text ⟨a, b⟩ ++ slice text ⟨b, c⟩ = slice text ⟨a, c⟩ := by
  have ⟨pre, xs, rest, h₁, hpre, hxs⟩ := exists_parts hab ha hb
  have ⟨front, ys, post, h₂, hfront, hys⟩ := exists_parts hbc hb hc
  have heq : (pre ++ xs) ++ rest = front ++ (ys ++ post) := by rw [← h₁, h₂, List.append_assoc]
  have hlen : byteLength (pre ++ xs) = byteLength front := by omega
  have ⟨mid, hfr, hrest⟩ := exists_append_of_byteLength_le heq (Nat.le_of_eq hlen)
  have hmid : byteLength mid = 0 := by
    have := congrArg byteLength hfr
    rw [byteLength_append] at this
    omega
  have hnil : mid = [] := by
    cases mid with
    | nil => rfl
    | cons d mid =>
      have hd := d.utf8Size_pos
      rw [byteLength_cons] at hmid
      omega
  subst hnil
  have hfront' : front = pre ++ xs := by simpa using hfr
  subst hfront'
  have h₃ : text = pre ++ (xs ++ ys) ++ post := by rw [h₂]; simp
  have hab' : slice text ⟨a, b⟩ = xs := by rw [h₁, ← hpre, ← hxs]; exact slice_eq pre xs rest
  have hbc' : slice text ⟨b, c⟩ = ys := by
    rw [h₂, ← hxs, ← hys]; exact slice_eq (pre ++ xs) ys post
  have hac' : slice text ⟨a, c⟩ = xs ++ ys := by
    have hlast : byteLength (pre ++ (xs ++ ys)) = c := by rw [← hys, List.append_assoc]
    rw [h₃, ← hpre, ← hlast]
    exact slice_eq pre (xs ++ ys) post
  rw [hab', hbc', hac']

-- The character that begins at an offset, if one does.
def charAt? : Nat → List Char → Option Char
  | _, [] => none
  | n, c :: cs =>
    if n = 0 then some c
    else if n < c.utf8Size then none
    else charAt? (n - c.utf8Size) cs

@[simp] theorem charAt?_zero_cons (c : Char) (cs : List Char) : charAt? 0 (c :: cs) = some c := by
  simp [charAt?]

theorem charAt?_append (pre post : List Char) (n : Nat) :
    charAt? (byteLength pre + n) (pre ++ post) = charAt? n post := by
  induction pre with
  | nil => simp
  | cons c pre ih =>
    have hc := c.utf8Size_pos
    have hsub : byteLength (c :: pre) + n - c.utf8Size = byteLength pre + n := by
      rw [byteLength_cons]; omega
    have hne : byteLength (c :: pre) + n ≠ 0 := by rw [byteLength_cons]; omega
    have hge : ¬byteLength (c :: pre) + n < c.utf8Size := by rw [byteLength_cons]; omega
    rw [List.cons_append, charAt?, if_neg hne, if_neg hge, hsub, ih]

-- No character begins inside of another one.
theorem charAt?_eq_none {d : Char} {n : Nat} (h₀ : 0 < n) (h : n < d.utf8Size)
    (cs : List Char) : charAt? n (d :: cs) = none := by
  simp [charAt?, h, Nat.ne_of_gt h₀]

-- Read offset by offset, a part of a text is itself.
theorem flatMap_charAt? (pre mid post : List Char) :
    ((List.range' (byteLength pre) (byteLength mid)).flatMap fun i =>
      (charAt? i (pre ++ mid ++ post)).toList) = mid := by
  induction mid generalizing pre with
  | nil => simp
  | cons d mid ih =>
    have ⟨n, hn⟩ : ∃ n, d.utf8Size = n + 1 := ⟨d.utf8Size - 1, by have := d.utf8Size_pos; omega⟩
    have hsplit : List.range' (byteLength pre) (byteLength (d :: mid)) =
        byteLength pre :: List.range' (byteLength pre + 1) n
          ++ List.range' (byteLength (pre ++ [d])) (byteLength mid) := by
      have hlen : byteLength (d :: mid) = n + byteLength mid + 1 := by
        rw [byteLength_cons, hn]; omega
      have hstart : byteLength (pre ++ [d]) = byteLength pre + 1 + n := by
        rw [byteLength_append, byteLength_cons, hn]; simp; omega
      rw [hlen, hstart, List.range'_succ, ← List.range'_append_1, List.cons_append]
    have hfirst : charAt? (byteLength pre) (pre ++ (d :: mid) ++ post) = some d := by
      have := charAt?_append pre (d :: mid ++ post) 0
      simpa using this
    have hinside : ∀ i ∈ List.range' (byteLength pre + 1) n,
        (charAt? i (pre ++ (d :: mid) ++ post)).toList = [] := by
      intro i hi
      have ⟨hlo, hhi⟩ := List.mem_range'_1.mp hi
      have ⟨k, hk⟩ : ∃ k, i = byteLength pre + k := ⟨i - byteLength pre, by omega⟩
      subst hk
      rw [List.append_assoc, charAt?_append, List.cons_append,
        charAt?_eq_none (by omega) (by omega)]
      rfl
    have hrest := ih (pre ++ [d])
    simp only [List.append_assoc, List.singleton_append] at hrest
    rw [hsplit, List.flatMap_append, List.flatMap_cons, hfirst, List.flatMap_eq_nil_iff.mpr hinside]
    simpa using hrest

theorem slice_eq_flatMap (hab : a ≤ b) (ha : isBoundary a text = true)
    (hb : isBoundary b text = true) :
    slice text ⟨a, b⟩ = (List.range' a (b - a)).flatMap fun i => (charAt? i text).toList := by
  have ⟨pre, mid, post, htext, hpre, hmid⟩ := exists_parts hab ha hb
  have hlen : b - a = byteLength mid := by rw [← hmid, ← hpre, byteLength_append]; omega
  subst htext
  rw [hlen, ← hpre, flatMap_charAt? pre mid post, ← hmid]
  exact slice_eq pre mid post

end Text

-- A part of a text that begins and ends between two characters.
structure Span.FitsIn (span : Span) (text : List Char) : Prop where
  ordered : span.Ordered
  start : Text.isBoundary span.start text = true
  stop : Text.isBoundary span.stop text = true

instance (span : Span) (text : List Char) : Decidable (span.FitsIn text) :=
  decidable_of_iff
    (span.Ordered ∧ Text.isBoundary span.start text = true ∧ Text.isBoundary span.stop text = true)
    ⟨fun ⟨h₁, h₂, h₃⟩ => ⟨h₁, h₂, h₃⟩, fun ⟨h₁, h₂, h₃⟩ => ⟨h₁, h₂, h₃⟩⟩

end ClassSplit
