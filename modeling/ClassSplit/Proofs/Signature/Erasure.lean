import ClassSplit.Proofs.Signature.Parts
import Mathlib.Data.List.Forall2

/-!
What the spellings of a signature have in common. Brackets and `...` may be written or left out,
but the name and the bare types are in every spelling, and they can be read back from it. Two
well-formed signatures therefore match exactly when they are equal up to brackets and `...`. Main
statements: `exists_common_form_iff` and `agrees_iff`.
-/

namespace ClassSplit

open Signature Text

namespace ParamType

-- The type with any brackets and dots behind it.
inductive Writes (p : ParamType) : String → Prop
  | bracketed (n : Nat) : Writes p (p.base ++ brackets n)
  | dotted (n : Nat) : Writes p (p.base ++ brackets n ++ "...")

variable {p : ParamType} {text : String}

theorem brackets_zero : brackets 0 = "" := rfl

theorem writes_base (p : ParamType) : p.Writes p.base := by
  have h := Writes.bracketed (p := p) 0
  rwa [brackets_zero, String.append_empty] at h

theorem writes_canonical (p : ParamType) : p.Writes p.canonical := by
  cases hv : p.variadic with
  | true => simpa [canonical, hv] using Writes.dotted (p := p) p.dims
  | false => simpa [canonical, hv] using Writes.bracketed (p := p) p.dims

theorem writes_of_mem_spellings {isLast : Bool} (h : text ∈ p.spellings isLast) :
    p.Writes text := by
  simp only [spellings] at h
  split_ifs at h with hdims hlast
  · exact List.mem_singleton.mp h ▸ p.writes_base
  · simp only [List.cons_append, List.nil_append, List.mem_cons, List.not_mem_nil, or_false] at h
    obtain rfl | rfl | rfl := h
    · exact .bracketed _
    · exact .dotted _
    · exact p.writes_base
  · simp only [List.cons_append, List.nil_append, List.mem_cons, List.not_mem_nil, or_false] at h
    obtain rfl | rfl := h
    · exact .bracketed _
    · exact p.writes_base

theorem base_mem_spellings (p : ParamType) (isLast : Bool) : p.base ∈ p.spellings isLast := by
  simp only [spellings]
  split_ifs <;> simp

theorem bare_spellings (p : ParamType) (isLast : Bool) : bare (p.spellings isLast) = p.base := by
  simp only [spellings, bare]
  split_ifs <;> simp

-- The characters of brackets and dots.
def isMark (c : Char) : Bool := c = '[' ∨ c = ']' ∨ c = '.'

-- A text without the brackets and dots at its end.
def withoutMarks (text : String) : String :=
  String.ofList (text.toList.reverse.dropWhile isMark).reverse

theorem toList_brackets (n : Nat) :
    (brackets n).toList = (List.replicate n ['[', ']']).flatten := by
  rw [brackets, String.toList_join, List.flatMap_replicate]
  rfl

theorem isMark_of_mem_brackets {n : Nat} {c : Char} (h : c ∈ (brackets n).toList) :
    isMark c = true := by
  rw [toList_brackets] at h
  obtain ⟨pair, hpair, hc⟩ := List.mem_flatten.mp h
  obtain rfl := List.eq_of_mem_replicate hpair
  obtain rfl | rfl : c = '[' ∨ c = ']' := by simpa using hc
  · rfl
  · rfl

theorem isWhole_brackets (n : Nat) : isWhole 0 (brackets n).toList = true := by
  rw [toList_brackets]
  induction n with
  | zero => rfl
  | succ n ih =>
    rw [List.replicate_succ, List.flatten_cons]
    exact isWhole_append rfl ih

-- What is written behind a type consists of marks only, and no comma divides it.
theorem Writes.exists_marks (h : p.Writes text) :
    ∃ marks, text.toList = p.base.toList ++ marks ∧ isWhole 0 marks = true ∧
      ∀ c ∈ marks, isMark c = true := by
  cases h with
  | bracketed n =>
    exact ⟨_, String.toList_append, isWhole_brackets n, fun _ => isMark_of_mem_brackets⟩
  | dotted n =>
    refine ⟨(brackets n).toList ++ ['.', '.', '.'], ?_, isWhole_append (isWhole_brackets n) rfl, ?_⟩
    · simp [String.toList_append]
    · intro c hc
      cases List.mem_append.mp hc with
      | inl hc => exact isMark_of_mem_brackets hc
      | inr hc =>
        obtain rfl : c = '.' := by simpa using hc
        rfl

theorem Writes.isWhole (h : p.Writes text) (hp : isTypeName 0 false p.base.toList = true) :
    isWhole 0 text.toList = true := by
  obtain ⟨marks, htext, hwhole, -⟩ := h.exists_marks
  rw [htext]
  exact isWhole_append (isWhole_of_isTypeName hp) hwhole

theorem Writes.withoutMarks_eq (h : p.Writes text) (hp : isTypeName 0 false p.base.toList = true) :
    withoutMarks text = p.base := by
  obtain ⟨marks, htext, -, hmarks⟩ := h.exists_marks
  rw [withoutMarks, htext, List.reverse_append,
    List.dropWhile_append_of_pos (by simpa using hmarks), ← String.toList_inj,
    String.toList_ofList]
  obtain hbase | ⟨front, last, hbase⟩ := List.eq_nil_or_concat p.base.toList
  · rw [hbase]
    rfl
  · have hlast : isMark last = false := by
      rw [hbase, List.concat_eq_append] at hp
      obtain hword | rfl := last_of_isTypeName hp
      · simp [isMark, ne_of_isWordChar hword '[' (by decide),
          ne_of_isWordChar hword ']' (by decide),
          ne_of_isWordChar hword '.' (by decide)]
      · rfl
    simp [hbase, hlast]

theorem Writes.toList_ne_nil (h : p.Writes text) (hp : isTypeName 0 false p.base.toList = true) :
    text.toList ≠ [] := by
  obtain ⟨marks, htext, -, -⟩ := h.exists_marks
  rw [htext]
  refine List.append_ne_nil_of_left_ne_nil ?_ _
  intro hbase
  rw [hbase] at hp
  cases hp

end ParamType

namespace Signature

variable {s t : Signature} {f : String}

-- The name is an identifier, and the type of each parameter has a name.
def isProper (s : Signature) : Bool :=
  !s.name.toList.isEmpty && s.name.toList.all isWordChar
    && s.params.all fun p => isTypeName 0 false p.base.toList

-- A text that names a method by an identifier and the types of its parameters by their names.
def WellFormed (text : String) : Prop := (ofString text).isProper = true

instance (text : String) : Decidable (WellFormed text) :=
  inferInstanceAs (Decidable (_ = true))

example : WellFormed "put(final java.util.Map<String, int[]> m, int[]... xs)" := by decide +kernel

-- A signature without its brackets and `...`.
def erasure (s : Signature) : String × List String := (s.name, s.params.map (·.base))

theorem mem_selections {xs : List String} {choices : List (List String)} :
    xs ∈ selections choices ↔ List.Forall₂ (· ∈ ·) xs choices := by
  induction choices generalizing xs with
  | nil => simp [selections]
  | cons choice rest ih =>
    cases xs with
    | nil => simp [selections]
    | cons x xs => simp [selections, ih]

theorem forall₂_mapIdx {α β : Type} {R : β → α → Prop} {f : Nat → α → β} (xs : List α)
    (h : ∀ i, ∀ x ∈ xs, R (f i x) x) : List.Forall₂ R (xs.mapIdx f) xs := by
  induction xs generalizing f with
  | nil => exact .nil
  | cons x xs ih =>
    rw [List.mapIdx_cons]
    exact .cons (h 0 x List.mem_cons_self) (ih fun i y hy => h (i + 1) y (List.mem_cons_of_mem _ hy))

theorem map_eq_map_of_forall₂ {α β γ : Type} {f : α → γ} {g : β → γ} {xs : List α} {ys : List β}
    (h : List.Forall₂ (fun x y => f x = g y) xs ys) : xs.map f = ys.map g := by
  rw [← List.forall₂_eq_eq_eq, List.forall₂_map_left_iff, List.forall₂_map_right_iff]
  exact h

-- What is chosen for each parameter is as all of its choices are.
theorem forall₂_of_mem_choices {α : Type} {R : String → α → Prop} {xs : List String}
    {choices : List (List String)} {ys : List α} (hxs : List.Forall₂ (· ∈ ·) xs choices)
    (h : List.Forall₂ (fun choices y => ∀ x ∈ choices, R x y) choices ys) : List.Forall₂ R xs ys := by
  induction h generalizing xs with
  | nil => rwa [List.forall₂_nil_right_iff] at hxs ⊢
  | cons hy _ ih =>
    obtain ⟨x, rest, hx, hrest, rfl⟩ := List.forall₂_cons_right_iff.mp hxs
    exact .cons (hy x hx) (ih hrest)

-- A text that has the name and the types of a signature, with any brackets and dots behind them.
def Spells (s : Signature) (text : String) : Prop :=
  ∃ params, text = s.render params ∧ List.Forall₂ (fun x p => ParamType.Writes p x) params s.params

theorem forall₂_paramSpellings (s : Signature) :
    List.Forall₂ (fun choices p => ∀ x ∈ choices, ParamType.Writes p x) s.paramSpellings
      s.params :=
  forall₂_mapIdx _ fun _ _ _ _ => ParamType.writes_of_mem_spellings

theorem spells_canonicalForm (s : Signature) : s.Spells s.canonicalForm :=
  ⟨_, rfl, List.forall₂_map_left_iff.mpr (List.forall₂_same.mpr fun p _ => p.writes_canonical)⟩

theorem spells_of_forall₂ {xs : List String}
    (h : List.Forall₂ (· ∈ ·) xs s.paramSpellings) : s.Spells (s.render xs) :=
  ⟨xs, rfl, forall₂_of_mem_choices h s.forall₂_paramSpellings⟩

section Picks

variable {choices : List String}

theorem bracketed_mem (h : choices ≠ []) : bracketed choices ∈ choices := by
  rw [bracketed, List.headD_eq_head?_getD, List.head?_eq_some_head h]
  exact List.head_mem h

theorem dotted_mem (h : choices ≠ []) : dotted choices ∈ choices := by
  rw [dotted]
  split_ifs with hlength
  · rw [List.getElem?_eq_getElem (hlength ▸ Nat.lt_add_of_pos_left (by decide))]
    exact List.getElem_mem _
  · exact bracketed_mem h

theorem bare_mem (h : choices ≠ []) : bare choices ∈ choices := by
  rw [bare, List.getLastD_eq_getLast?, List.getLast?_eq_some_getLast h]
  exact List.getLast_mem h

end Picks

-- The spellings of a signature however many array parameters it has: each parameter in each of its
-- own spellings.
def allForms (s : Signature) : NameSet := NameSet.ofList ((selections s.paramSpellings).map s.render)

theorem spells_of_mem_allForms (h : f ∈ s.allForms) : s.Spells f := by
  obtain ⟨xs, hxs, rfl⟩ := List.mem_map.mp (NameSet.mem_ofList.mp h)
  exact spells_of_forall₂ (mem_selections.mp hxs)

theorem spells_of_mem_forms (h : f ∈ s.forms) : s.Spells f := by
  have huniform {pick : List String → String}
      (hpick : ∀ choices : List String, choices ≠ [] → pick choices ∈ choices) :
      s.Spells (s.render (s.paramSpellings.map pick)) := by
    refine spells_of_forall₂ (List.forall₂_map_left_iff.mpr (List.forall₂_same.mpr ?_))
    intro choices hchoices
    obtain ⟨i, hi, rfl⟩ := List.mem_mapIdx.mp hchoices
    exact hpick _ (List.ne_nil_of_mem (ParamType.base_mem_spellings _ _))
  simp only [forms] at h
  split_ifs at h
  · simp only [NameSet.mem_ofList, List.mem_cons, List.not_mem_nil, or_false] at h
    obtain rfl | rfl | rfl | rfl := h
    · exact huniform fun _ => bracketed_mem
    · exact huniform fun _ => dotted_mem
    · exact huniform fun _ => bare_mem
    · exact s.spells_canonicalForm
  · exact spells_of_mem_allForms h

-- The spelling without brackets and dots. It is formed however many array parameters there are.
def bareForm (s : Signature) : String := s.render (s.params.map (·.base))

theorem bareForm_mem_allForms (s : Signature) : s.bareForm ∈ s.allForms := by
  refine NameSet.mem_ofList.mpr (List.mem_map_of_mem (mem_selections.mpr ?_))
  refine List.forall₂_map_left_iff.mpr (List.Forall₂.flip ?_)
  exact forall₂_mapIdx _ fun _ p _ => p.base_mem_spellings _

theorem map_bare_paramSpellings (s : Signature) :
    s.paramSpellings.map bare = s.params.map (·.base) :=
  map_eq_map_of_forall₂ (forall₂_mapIdx _ fun _ p _ => p.bare_spellings _)

theorem bareForm_mem_forms (s : Signature) : s.bareForm ∈ s.forms := by
  simp only [forms]
  split_ifs
  · rw [NameSet.mem_ofList, map_bare_paramSpellings]
    simp [bareForm]
  · exact s.bareForm_mem_allForms

theorem bareForm_congr (h : s.erasure = t.erasure) : s.bareForm = t.bareForm := by
  obtain ⟨hname, hparams⟩ := Prod.mk.inj h
  simp only [bareForm, render, hname, hparams]

theorem toList_render (s : Signature) (params : List String) :
    (s.render params).toList =
      s.name.toList ++ '(' :: ([','].intercalate (params.map String.toList) ++ [')']) := by
  simp [render, String.toList_append, String.toList_intercalate]

theorem isProper_iff :
    s.isProper = true ↔
      (s.name.toList ≠ [] ∧ ∀ c ∈ s.name.toList, isWordChar c = true) ∧
        ∀ p ∈ s.params, isTypeName 0 false p.base.toList = true := by
  simp [isProper]

theorem takeWhile_render (hs : s.isProper = true) (params : List String) :
    (s.render params).toList.takeWhile (· != '(') = s.name.toList := by
  have hname : ∀ c ∈ s.name.toList, (c != '(') = true := fun c hc =>
    bne_iff_ne.mpr (ne_of_isWordChar ((isProper_iff.mp hs).left.right c hc) '(' (by decide))
  rw [toList_render, List.takeWhile_append_of_pos hname]
  simp

-- What is written for parameters whose types have names are parts that no comma divides, and the
-- bare types can be read off them.
theorem whole_and_bare {xs : List String} {ps : List ParamType}
    (hps : ∀ p ∈ ps, isTypeName 0 false p.base.toList = true)
    (h : List.Forall₂ (fun x p => ParamType.Writes p x) xs ps) :
    (∀ x ∈ xs, x.toList ≠ [] ∧ isWhole 0 x.toList = true) ∧
      xs.map ParamType.withoutMarks = ps.map (·.base) := by
  induction h with
  | nil => simp
  | cons hwrites _ ih =>
    have hp := hps _ List.mem_cons_self
    obtain ⟨hwhole, hbare⟩ := ih fun p hp => hps p (List.mem_cons_of_mem _ hp)
    refine ⟨List.forall_mem_cons.mpr ⟨⟨hwrites.toList_ne_nil hp, hwrites.isWhole hp⟩, hwhole⟩, ?_⟩
    rw [List.map_cons, List.map_cons, hwrites.withoutMarks_eq hp, hbare]

theorem eq_nil_of_intercalate_eq_nil {parts : List (List Char)} (h : ∀ part ∈ parts, part ≠ [])
    (hnil : [','].intercalate parts = []) : parts = [] := by
  cases parts with
  | nil => rfl
  | cons part parts =>
    have hpart := h part List.mem_cons_self
    cases parts <;> simp_all [List.intercalate_cons_cons]

-- A list of whole parts can be read off its text.
theorem intercalate_injective {xs ys : List (List Char)}
    (hxs : ∀ x ∈ xs, x ≠ [] ∧ isWhole 0 x = true) (hys : ∀ y ∈ ys, y ≠ [] ∧ isWhole 0 y = true)
    (h : [','].intercalate xs = [','].intercalate ys) : xs = ys := by
  by_cases hx : xs = []
  case pos =>
    subst hx
    exact (eq_nil_of_intercalate_eq_nil (fun y hy => (hys y hy).left) h.symm).symm
  case neg =>
    have hy : ys ≠ [] := by
      rintro rfl
      exact hx (eq_nil_of_intercalate_eq_nil (fun x hx => (hxs x hx).left) h)
    rw [← splitTopLevel_intercalate hx fun x hx => (hxs x hx).right, h,
      splitTopLevel_intercalate hy fun y hy => (hys y hy).right]

-- A text spells one signature only, up to brackets and dots.
theorem erasure_eq_of_spells (hs : s.isProper = true) (ht : t.isProper = true)
    (hsf : s.Spells f) (htf : t.Spells f) : s.erasure = t.erasure := by
  obtain ⟨xs, rfl, hxs⟩ := hsf
  obtain ⟨ys, hrender, hys⟩ := htf
  obtain ⟨hxsWhole, hxsBare⟩ := whole_and_bare (isProper_iff.mp hs).right hxs
  obtain ⟨hysWhole, hysBare⟩ := whole_and_bare (isProper_iff.mp ht).right hys
  have hname : s.name.toList = t.name.toList := by
    rw [← takeWhile_render hs xs, hrender, takeWhile_render ht ys]
  have hchars := congrArg String.toList hrender
  rw [toList_render, toList_render, hname, List.append_cancel_left_eq, List.cons.injEq,
    List.append_cancel_right_eq] at hchars
  have hparams : xs = ys := by
    refine (List.map_injective_iff.mpr fun _ _ => String.toList_inj.mp)
      (intercalate_injective ?_ ?_ hchars.right)
    · simpa using hxsWhole
    · simpa using hysWhole
  rw [erasure, erasure, ← hxsBare, ← hysBare, hparams, String.toList_inj.mp hname]

theorem exists_common_form (h : s.bareForm = t.bareForm) : ∃ f, f ∈ s.forms ∧ f ∈ t.forms := by
  refine ⟨s.bareForm, s.bareForm_mem_forms, ?_⟩
  rw [h]
  exact t.bareForm_mem_forms

theorem exists_common_form_iff (hs : s.isProper = true) (ht : t.isProper = true) :
    (∃ f, f ∈ s.forms ∧ f ∈ t.forms) ↔ s.erasure = t.erasure := by
  constructor
  case mp =>
    rintro ⟨f, hsf, htf⟩
    exact erasure_eq_of_spells hs ht (spells_of_mem_forms hsf) (spells_of_mem_forms htf)
  case mpr =>
    intro h
    exact exists_common_form (bareForm_congr h)

theorem agrees_iff_exists :
    s.agrees t = true ↔ s.canonicalForm = t.canonicalForm ∨ ∃ f, f ∈ s.forms ∧ f ∈ t.forms := by
  simp [agrees, NameSet.contains, Membership.mem, and_comm]

theorem erasure_eq_of_canonicalForm_eq (hs : s.isProper = true) (ht : t.isProper = true)
    (h : s.canonicalForm = t.canonicalForm) : s.erasure = t.erasure := by
  have htf : t.Spells s.canonicalForm := by
    rw [h]
    exact t.spells_canonicalForm
  exact erasure_eq_of_spells hs ht s.spells_canonicalForm htf

theorem agrees_iff (hs : s.isProper = true) (ht : t.isProper = true) :
    s.agrees t = true ↔ s.erasure = t.erasure := by
  rw [agrees_iff_exists, exists_common_form_iff hs ht, or_iff_right_iff_imp]
  exact erasure_eq_of_canonicalForm_eq hs ht

end Signature

end ClassSplit
