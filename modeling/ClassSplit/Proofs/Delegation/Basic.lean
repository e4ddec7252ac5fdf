import ClassSplit.Delegation.Basic
import ClassSplit.Patch.Basic
import ClassSplit.Proofs.Model.OfTree
import ClassSplit.Proofs.Patch.Splice
import Mathlib.Data.List.Forall2

/-!
The bodies that moved methods get and the declaration of the helper field: each stands at a place in
the body of the class that the tree gives.
-/

namespace ClassSplit

open Java

section Except

variable {ε α β : Type}

-- A list fails where one of its members does.
theorem exists_of_mapM_eq_error {f : α → Except ε β} {xs : List α} {e : ε}
    (h : xs.mapM f = .error e) : ∃ x ∈ xs, f x = .error e := by
  induction xs with
  | nil => cases h
  | cons x xs ih =>
    rw [List.mapM_cons] at h
    obtain hx | ⟨y, -, h⟩ := bind_eq_error.mp h
    · exact ⟨x, List.mem_cons_self, hx⟩
    obtain hxs | ⟨ys, -, h⟩ := bind_eq_error.mp h
    · obtain ⟨z, hz, hfails⟩ := ih hxs
      exact ⟨z, List.mem_cons_of_mem _ hz, hfails⟩
    · cases h

theorem forall₂_of_mapM_eq_ok {f : α → Except ε β} {xs : List α} {ys : List β}
    (h : xs.mapM f = .ok ys) : List.Forall₂ (fun x y => f x = .ok y) xs ys := by
  induction xs generalizing ys with
  | nil =>
    cases h
    exact .nil
  | cons x xs ih =>
    rw [List.mapM_cons] at h
    obtain ⟨y, hy, hrest⟩ := bind_eq_ok.mp h
    obtain ⟨ys', hys, heq⟩ := bind_eq_ok.mp hrest
    cases heq
    exact .cons hy (ih hys)

theorem exists_mem_of_forall₂ {R : α → β → Prop} {xs : List α} {ys : List β} {y : β}
    (h : List.Forall₂ R xs ys) (hy : y ∈ ys) : ∃ x ∈ xs, R x y := by
  induction h with
  | nil => cases hy
  | cons hxy _ ih =>
    cases List.mem_cons.mp hy with
    | inl heq => exact ⟨_, List.mem_cons_self, heq ▸ hxy⟩
    | inr hmem =>
      obtain ⟨x, hx, hR⟩ := ih hmem
      exact ⟨x, List.mem_cons_of_mem _ hx, hR⟩

theorem exists_of_mem_forall₂ {R : α → β → Prop} {xs : List α} {ys : List β} {x : α}
    (h : List.Forall₂ R xs ys) (hx : x ∈ xs) : ∃ us y vs before after, ys = us ++ y :: vs ∧
      xs = before ++ x :: after ∧ R x y ∧ List.Forall₂ R before us ∧ List.Forall₂ R after vs := by
  induction h with
  | nil => cases hx
  | @cons a b as bs hab hrest ih =>
    cases List.mem_cons.mp hx with
    | inl heq => exact ⟨[], b, bs, [], as, rfl, heq ▸ rfl, heq ▸ hab, .nil, hrest⟩
    | inr hmem =>
      obtain ⟨us, y, vs, before, after, rfl, rfl, hR, hbefore, hafter⟩ := ih hmem
      exact ⟨b :: us, y, vs, a :: before, after, rfl, rfl, hR, .cons hab hbefore, hafter⟩

end Except

theorem NameMap.mem_putAscending {α : Type} {name : String} {value : α} {entry : String × α}
    {entries : List (String × α)} (h : entry ∈ NameMap.putAscending name value entries) :
    entry = (name, value) ∨ entry ∈ entries := by
  induction entries with
  | nil => exact .inl (List.mem_singleton.mp h)
  | cons first rest ih =>
    obtain ⟨n, v⟩ := first
    rw [NameMap.putAscending] at h
    split at h
    case isTrue => exact List.mem_cons.mp h
    case isFalse =>
      split at h
      case isTrue => exact (List.mem_cons.mp h).imp_right (List.mem_cons_of_mem _)
      case isFalse =>
        cases List.mem_cons.mp h with
        | inl heq => exact .inr (heq ▸ List.mem_cons_self)
        | inr hrest => exact (ih hrest).imp_right (List.mem_cons_of_mem _)

-- A map made from a list has no other entries.
theorem NameMap.mem_entries_ofList {α : Type} {entry : String × α} {entries : List (String × α)}
    (h : entry ∈ (NameMap.ofList entries).entries) : entry ∈ entries := by
  have hfoldl : ∀ m : NameMap α,
      entry ∈ (entries.foldl (fun m entry => m.put entry.1 entry.2) m).entries →
        entry ∈ m.entries ∨ entry ∈ entries := by
    clear h
    induction entries with
    | nil => exact fun m h => .inl h
    | cons first rest ih =>
      intro m h
      cases ih _ h with
      | inl hput =>
        cases mem_putAscending hput with
        | inl heq => exact .inr (heq ▸ List.mem_cons_self)
        | inr hmem => exact .inl hmem
      | inr hmem => exact .inr (List.mem_cons_of_mem _ hmem)
  exact (hfoldl _ h).resolve_left (by simp [NameMap.empty])

theorem Text.byteLength_slice {text : List Char} {span : Span} (h : span.FitsIn text) :
    Text.byteLength (Text.slice text span) = span.stop - span.start := by
  obtain ⟨pre, mid, post, rfl, hpre, hmid⟩ := Text.exists_parts h.ordered h.start h.stop
  have hspan : span = ⟨Text.byteLength pre, Text.byteLength (pre ++ mid)⟩ := by rw [hpre, hmid]
  rw [hspan, Text.slice_eq, Text.byteLength_append]
  simp

theorem Replacement.fits_ofText {text : List Char} {span : Span} (h : span.FitsIn text)
    (word : String) : (ofText span word).Fits text where
  span := h
  pieces := by simp [ofText, Piece.FitsIn]

namespace JavaSource.PrimaryBody

variable {s : JavaSource} {body : Site}

-- The brace that opens the body takes one byte.
theorem exists_brace (h : s.PrimaryBody body) : ∃ brace ∈ body.node.children,
    brace.isMark = true ∧ brace.span.start = body.span.start ∧
      brace.span.stop = body.span.start + 1 := by
  have hshape := h.sound.shape h.isClassBody.children
  rw [h.isClassBody.kind] at hshape
  obtain ⟨brace, hbrace, hmark, hkind⟩ := hshape
  have hmem := List.mem_of_head? hbrace
  have hsound := h.sound.of_mem_children hmem
  have hstart : brace.span.start = body.span.start := h.sound.start_of_head? hbrace
  refine ⟨brace, hmem, hmark, hstart, ?_⟩
  have hslice := hsound.slice_of_isMark hmark hkind
  have hlen := Text.byteLength_slice hsound.fits
  have hordered : brace.span.start ≤ brace.span.stop := hsound.fits.ordered
  rw [hslice, show Text.byteLength "\x7b".toList = 1 by decide] at hlen
  omega

theorem isBoundary_inside (h : s.PrimaryBody body) :
    Text.isBoundary (body.span.start + 1) s.text = true := by
  obtain ⟨brace, hmem, -, -, hstop⟩ := h.exists_brace
  rw [← hstop]
  exact (h.sound.of_mem_children hmem).fits.stop

-- The members of the class stand behind it.
theorem start_lt_of_isMark {n : Node} (h : s.PrimaryBody body) (hn : n ∈ body.node.children)
    (hmark : n.isMark = false) : body.span.start < n.span.start := by
  obtain ⟨brace, hmem, hbrace, hstart, hstop⟩ := h.exists_brace
  have hlt := (h.of_mem_children hn).left.nonempty
  have hcovers : body.span.start ≤ n.span.start :=
    (Span.covers_iff.mp (h.sound.covers_child hn)).left
  obtain rfl | hbeside := h.sound.eq_or_beside hmem hn
  · rw [hbrace] at hmark
    cases hmark
  · unfold Span.Beside at hbeside
    omega

end JavaSource.PrimaryBody

namespace Delegation

variable {d : Delegation} {body : Site} {m : Method} {r : Replacement}

theorem needHelper_eq_ok {helper : String} (h : d.needHelper = .ok helper) :
    d.helper = some helper := by
  rw [needHelper] at h
  split at h
  case h_1 hhelper =>
    cases h
    exact hhelper
  case h_2 => cases h

theorem exists_body_of_stub (h : d.stub m = .ok r) :
    ∃ span text, m.body = some span ∧ r = .ofText span text := by
  simp only [stub] at h
  split at h
  case h_2 => cases h
  case h_1 span hspan =>
    split at h
    all_goals
      obtain ⟨target, -, heq⟩ := bind_eq_ok.mp h
      cases heq
      exact ⟨span, _, hspan, rfl⟩

-- The stub stands in the place of a child of the method that is not its name.
theorem exists_member_of_stub (h : d.source.PrimaryBody body) (hm : m ∈ d.source.model.methods)
    (hr : d.stub m = .ok r) :
    ∃ member ∈ body.node.namedChildren,
      (member.kind = .methodDeclaration ∨ member.kind = .constructorDeclaration) ∧
        m = JavaSource.readMethod d.source.text
          (decide (member.kind = .constructorDeclaration)) member ∧
        ∃ n text, member.child? .body = some n ∧ r = .ofText n.span text := by
  obtain ⟨member, hmember, hkind, hread⟩ := h.methods m hm
  obtain ⟨span, text, hspan, rfl⟩ := exists_body_of_stub hr
  rw [hread, JavaSource.readMethod] at hspan
  obtain ⟨n, hn, rfl⟩ := Option.map_eq_some_iff.mp hspan
  exact ⟨member, hmember, hkind, hread, n, text, hn, rfl⟩

theorem map_span_eq_of_forall₂ {methods : List Method} {stubs : List Replacement}
    (h : List.Forall₂ (fun m r => d.stub m = .ok r) methods stubs) :
    stubs.map (·.span) = methods.filterMap (·.body) := by
  induction h with
  | nil => rfl
  | cons hstub _ ih =>
    obtain ⟨span, text, hspan, rfl⟩ := exists_body_of_stub hstub
    rw [List.filterMap_cons_some hspan, List.map_cons, ih]
    rfl

theorem mem_fields_of_fieldsOfList {fields : List DelegatedField} {c : ClassModel}
    (h : ∀ f ∈ fields, f.field ∈ c.fields) {entry : String × DelegatedField}
    (hentry : entry ∈ (fieldsOfList fields).entries) : entry.2.field ∈ c.fields := by
  obtain ⟨f, hf, rfl⟩ := List.mem_map.mp (NameMap.mem_entries_ofList hentry)
  exact h f hf

theorem fits_helperInsertion (h : d.source.PrimaryBody body) (helper : String) :
    (d.helperInsertion helper).Fits d.source.text := by
  refine Replacement.fits_ofText ⟨Nat.le_refl _, ?_, ?_⟩ _
  all_goals
    rw [h.span]
    exact h.isBoundary_inside

end Delegation

end ClassSplit
