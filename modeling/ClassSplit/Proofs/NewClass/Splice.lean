import ClassSplit.Proofs.NewClass.Cell

/-!
Edits of a copied declaration are replacements in the text of the declaration. One that writes
something replaces the token, and one that removes a token takes the gap behind it along. Main
statement: `Relocation.splice_of_editedText`.
-/

namespace ClassSplit

open Java

namespace Patch

variable {text tail : List Char} {cursor mid stop : Nat} {rest : List Replacement}

-- Replacements that stand behind a new text are carried out behind it.
theorem splice_ofText {span : Span} (new : String)
    (hrest : Span.InOrder span.stop stop (rest.map (·.span)))
    (htail : splice text span.stop stop rest = .ok tail) :
    splice text cursor stop (.ofText span new :: rest) =
      .ok (Text.slice text ⟨cursor, span.start⟩ ++ (new.toList ++ tail)) := by
  have hbehind : ∀ s ∈ rest, span.stop ≤ s.span.start ∧ s.span.start < s.span.stop := fun s hs =>
    ⟨(hrest.mem (List.mem_map_of_mem hs)).left, (hrest.mem (List.mem_map_of_mem hs)).right.left⟩
  have hencloses : ∀ s ∈ rest, (Replacement.ofText span new).encloses s = false := by
    intro s hs
    have hcovers : span.covers s.span = false := by
      have := hbehind s hs
      rw [Bool.eq_false_iff, Ne, Span.covers_iff]
      omega
    simp [Replacement.encloses, Replacement.ofText, hcovers]
  have htake : rest.takeWhile (Replacement.ofText span new).encloses = [] := by
    cases rest with
    | nil => rfl
    | cons s rest => rw [List.takeWhile_cons_of_neg (by simp [hencloses s List.mem_cons_self])]
  have hdrop : rest.dropWhile (Replacement.ofText span new).encloses = rest := by
    cases rest with
    | nil => rfl
    | cons s rest => rw [List.dropWhile_cons_of_neg (by simp [hencloses s List.mem_cons_self])]
  have hclash : (Replacement.ofText span new).clash? rest = none := by
    rw [Replacement.clash?, hdrop]
    refine Option.filter_eq_none_iff.mpr fun s hs => ?_
    have hstart := (hbehind s (List.mem_of_head? hs)).left
    exact fun hlt => Nat.not_lt.mpr hstart (of_decide_eq_true hlt)
  have hshown : splicePieces text span [] [.text new] = .ok new.toList := by
    rw [splicePieces, splicePieces]
    simp [bind, Except.bind]
  rw [splice, hclash, htake, hdrop]
  simp only [Replacement.ofText, hshown, htail, bind, Except.bind, List.append_assoc]

-- What stands in front of all replacements comes out as it is.
theorem splice_append (hle : cursor ≤ mid) (hmid : mid ≤ stop)
    (hcursor : Text.isBoundary cursor text = true) (hbound : Text.isBoundary mid text = true)
    (hstop : Text.isBoundary stop text = true)
    (hrest : ∀ r ∈ rest, mid ≤ r.span.start ∧ Text.isBoundary r.span.start text = true)
    (htail : splice text mid stop rest = .ok tail) :
    splice text cursor stop rest = .ok (Text.slice text ⟨cursor, mid⟩ ++ tail) := by
  cases rest with
  | nil =>
    rw [splice] at htail ⊢
    cases htail
    rw [Text.slice_append hle hmid hcursor hbound hstop]
  | cons r rest =>
    obtain ⟨hstart, hboundary⟩ := hrest r List.mem_cons_self
    rw [splice] at htail ⊢
    split at htail
    case h_1 => cases htail
    case h_2 hclash =>
      obtain ⟨shown, hshown, htail⟩ := bind_eq_ok.mp htail
      obtain ⟨behind, hbehind, htail⟩ := bind_eq_ok.mp htail
      cases htail
      simp only [hshown, hbehind, bind, Except.bind]
      rw [← Text.slice_append hle hstart hcursor hbound hboundary]
      simp only [List.append_assoc]

end Patch

namespace TokenEdit

variable {e : TokenEdit} {edits : List TokenEdit} {c : Replacement} {lo hi : Nat}
  {spans : List Span} {text tail : List Char}

-- What an edit of a token does to the text; behind the token begin those with some spans.
def replacement (e : TokenEdit) (s : Span) (behind : List Span) : Replacement :=
  match e.text with
  | some text => .ofText s text
  | none => .ofText ⟨s.start, (behind.head?.map (·.start)).getD s.stop⟩ ""

-- What edits of tokens with some spans do to the text.
def replacements (edits : List TokenEdit) : List Span → List Replacement
  | [] => []
  | s :: spans =>
    match edits.find? (·.origin = s) with
    | none => replacements edits spans
    | some e => e.replacement s spans :: replacements edits spans

theorem mem_replacements : c ∈ replacements edits spans ↔ ∃ front s behind e,
    spans = front ++ s :: behind ∧ edits.find? (·.origin = s) = some e ∧
      c = e.replacement s behind := by
  induction spans with
  | nil =>
    constructor
    case mp => exact fun h => by cases h
    case mpr =>
      rintro ⟨front, s, behind, e, heq, -⟩
      simp at heq
  | cons s spans ih =>
    have hsplit : (∃ front t behind e, s :: spans = front ++ t :: behind ∧
        edits.find? (·.origin = t) = some e ∧ c = e.replacement t behind) ↔
          (∃ e, edits.find? (·.origin = s) = some e ∧ c = e.replacement s spans) ∨
            c ∈ replacements edits spans := by
      rw [ih]
      constructor
      case mp =>
        rintro ⟨front, t, behind, e, heq, hfind, hc⟩
        obtain ⟨rfl, hnil⟩ | ⟨front', rfl, rfl⟩ := List.cons_eq_append_iff.mp heq
        · cases hnil
          exact .inl ⟨e, hfind, hc⟩
        · exact .inr ⟨front', t, behind, e, rfl, hfind, hc⟩
      case mpr =>
        rintro (⟨e, hfind, hc⟩ | ⟨front, t, behind, e, rfl, hfind, hc⟩)
        · exact ⟨[], s, spans, e, rfl, hfind, hc⟩
        · exact ⟨s :: front, t, behind, e, rfl, hfind, hc⟩
    rw [hsplit, replacements]
    cases hfind : edits.find? (·.origin = s) with
    | none => simp
    | some e => simp

theorem start_replacement (e : TokenEdit) (s : Span) (behind : List Span) :
    (e.replacement s behind).span.start = s.start := by
  rw [replacement]
  split
  all_goals rfl

theorem inOrder_replacements (h : Span.InOrder lo hi spans) :
    Span.InOrder lo hi ((replacements edits spans).map (·.span)) := by
  induction spans generalizing lo with
  | nil => exact h
  | cons s spans ih =>
    obtain ⟨hlo, hlt, hrest⟩ := h
    rw [replacements]
    split
    case h_1 => exact (ih hrest).mono (by omega)
    case h_2 e hfind =>
      rw [List.map_cons, replacement]
      split
      case h_1 => exact ⟨hlo, hlt, ih hrest⟩
      case h_2 =>
        cases spans with
        | nil => exact ⟨hlo, hlt, ih hrest⟩
        | cons t spans =>
          have hnext : s.stop ≤ t.start := hrest.left
          exact ⟨hlo, by simp [Replacement.ofText]; omega, ih ⟨Nat.le_refl _, hrest.right⟩⟩

theorem isBoundary_replacements (h : ∀ s ∈ spans, Text.isBoundary s.start text = true)
    (hc : c ∈ replacements edits spans) : Text.isBoundary c.span.start text = true := by
  obtain ⟨front, s, behind, e, rfl, -, rfl⟩ := mem_replacements.mp hc
  rw [start_replacement]
  exact h s (by simp)

section Cells

variable {n : Node} {ns : List Node}

theorem toList_gapOf_entered (hleaf : n.children = []) (cursor : Nat) (ns : List Node) :
    (gapOf (entered text cursor (n :: ns))).toList =
      Text.slice text ⟨cursor, n.span.start⟩ := by
  rw [entered, if_pos (by rw [hleaf]; rfl), gapOf, String.toList_ofList]

theorem cells_entered (hleaf : n.children = []) (cursor : Nat) (ns : List Node) :
    cells (entered text cursor (n :: ns)) =
      ⟨n.kind, n.span, n.word, gapOf (entered text n.span.stop ns)⟩
        :: cells (entered text n.span.stop ns) := by
  rw [entered, if_pos (by rw [hleaf]; rfl), cells]
  rfl

section Steps

variable {cursor next : Nat} (hrest : Span.InOrder next hi (ns.map (·.span)))
  (htail : Patch.splice text next hi (replacements edits (ns.map (·.span))) = .ok tail)
include hrest htail

-- A token of which nothing is asked comes out as it is, with the gap in front of it.
theorem splice_kept (hsound : n.Sound text) (hleaf : n.children = [])
    (hfind : edits.find? (·.origin = n.span) = none) (hnext : n.span.stop = next)
    (hle : cursor ≤ n.span.start) (hcursor : Text.isBoundary cursor text = true)
    (hbound : Text.isBoundary hi text = true) (hns : ∀ m ∈ ns, m.Sound text) :
    Patch.splice text cursor hi (replacements edits ((n :: ns).map (·.span))) =
      .ok (Text.slice text ⟨cursor, n.span.start⟩ ++ (n.word.toList ++ tail)) := by
  subst hnext
  have hfits := hsound.fits
  have hword : n.word.toList = Text.slice text n.span :=
    Site.toList_word (show (Site.root n).node.Sound text from hsound) hleaf
  have hbehind : ∀ r ∈ replacements edits (ns.map (·.span)),
      n.span.stop ≤ r.span.start ∧ Text.isBoundary r.span.start text = true := by
    intro r hr
    refine ⟨((inOrder_replacements hrest).mem (List.mem_map_of_mem hr)).left,
      isBoundary_replacements (fun s hs => ?_) hr⟩
    obtain ⟨m, hm, rfl⟩ := List.mem_map.mp hs
    exact (hns m hm).fits.start
  have hkept := Patch.splice_append (Nat.le_trans hle hfits.ordered) hrest.le hcursor
    hfits.stop hbound hbehind htail
  rw [← Text.slice_append hle hfits.ordered hcursor hfits.start hfits.stop, ← hword] at hkept
  rw [List.map_cons, replacements, hfind, hkept, List.append_assoc]

theorem splice_written {new : String} (hfind : edits.find? (·.origin = n.span) = some e)
    (htext : e.text = some new) (hnext : n.span.stop = next) :
    Patch.splice text cursor hi (replacements edits ((n :: ns).map (·.span))) =
      .ok (Text.slice text ⟨cursor, n.span.start⟩ ++ (new.toList ++ tail)) := by
  subst hnext
  have hnew : Patch.splice text cursor hi
      (.ofText n.span new :: replacements edits (ns.map (·.span))) = _ :=
    Patch.splice_ofText new (inOrder_replacements hrest) htail
  simp only [List.map_cons, replacements, hfind, replacement, htext, hnew]

-- The gap goes with a token that is removed, so that the text goes on where the next one begins.
theorem splice_removed (hfind : edits.find? (·.origin = n.span) = some e) (htext : e.text = none)
    (hnext : ((ns.map (·.span)).head?.map (·.start)).getD n.span.stop = next) :
    Patch.splice text cursor hi (replacements edits ((n :: ns).map (·.span))) =
      .ok (Text.slice text ⟨cursor, n.span.start⟩ ++ tail) := by
  have hgone : Patch.splice text cursor hi
      (.ofText ⟨n.span.start, next⟩ "" :: replacements edits (ns.map (·.span))) = _ :=
    Patch.splice_ofText "" (inOrder_replacements hrest) htail
  simp only [List.map_cons, replacements, hfind, replacement, htext, hnext, hgone]
  rfl

end Steps

-- What comes out of the tokens behind an offset is what the replacements make of the text behind
-- it.
theorem splice_replacements {cursor : Nat} (hns : ∀ n ∈ ns, n.children = [] ∧ n.Sound text)
    (hcursor : Text.isBoundary cursor text = true)
    (hhi : (ns.getLast?.map (·.span.stop)).getD cursor = hi)
    (h : Span.InOrder cursor hi (ns.map (·.span))) :
    Patch.splice text cursor hi (replacements edits (ns.map (·.span))) =
      .ok ((gapOf (entered text cursor ns)).toList ++
        ((cells (entered text cursor ns)).filterMap (revised edits)).flatMap Cell.chars) := by
  induction ns generalizing cursor with
  | nil =>
    have heq : cursor = hi := hhi
    subst heq
    rw [List.map_nil, replacements, Patch.splice, Text.slice_point]
    rfl
  | cons n ns ih =>
    obtain ⟨hleaf, hsound⟩ := hns n List.mem_cons_self
    have hrest : Span.InOrder n.span.stop hi (ns.map (·.span)) := h.right.right
    have hns' : ∀ m ∈ ns, m.children = [] ∧ m.Sound text := fun m hm =>
      hns m (List.mem_cons_of_mem n hm)
    have hend : (ns.getLast?.map (·.span.stop)).getD n.span.stop = hi := by
      cases ns with
      | nil => exact hhi
      | cons m ns => rwa [List.getLast?_cons_cons] at hhi
    have htail := ih hns' hsound.fits.stop hend hrest
    rw [toList_gapOf_entered hleaf, cells_entered hleaf, List.filterMap_cons, revised]
    cases hfind : edits.find? (·.origin = n.span) with
    | none =>
      have hbound : Text.isBoundary hi text = true := by
        rw [← hend]
        cases hlast : ns.getLast? with
        | none => exact hsound.fits.stop
        | some m => exact (hns' m (List.mem_of_getLast? hlast)).right.fits.stop
      rw [splice_kept hrest htail hsound hleaf hfind rfl h.left hcursor hbound
        fun m hm => (hns' m hm).right]
      simp only [List.flatMap_cons, Cell.chars, List.append_assoc]
    | some e =>
      cases htext : e.text with
      | some new =>
        rw [splice_written hrest htail hfind htext rfl]
        simp only [htext, Option.map_some, List.flatMap_cons, Cell.chars, List.append_assoc]
      | none =>
        cases ns with
        | nil =>
          rw [splice_removed hrest htail hfind htext rfl]
          simp only [htext, Option.map_none]
          rfl
        | cons m ns =>
          obtain ⟨hleaf', hsound'⟩ := hns' m List.mem_cons_self
          have hfrom : Span.InOrder m.span.start hi ((m :: ns).map (·.span)) :=
            ⟨Nat.le_refl _, hrest.right⟩
          have hshown := ih hns' hsound'.fits.start hend hfrom
          rw [toList_gapOf_entered hleaf', Text.slice_point, List.nil_append,
            cells_entered hleaf'] at hshown
          rw [splice_removed hfrom hshown hfind htext rfl, cells_entered hleaf']
          simp only [htext, Option.map_none]

end Cells

-- An edit is of a token of its kind, if there is one at its span, and it does not remove the last
-- one.
structure Fits (e : TokenEdit) (leaves : List Site) : Prop where
  word : ∀ kind : Kind, kind.name = e.kind.name → kind.isWord = true
  kind : ∀ t ∈ leaves, t.span = e.origin → t.kind = e.kind
  stays : e.text = none → (leaves.map (·.span)).getLast? ≠ some e.origin

theorem map_origin_entered (text : List Char) (cursor : Nat) (ns : List Node) :
    (entered text cursor ns).map (·.origin) = ns.map (·.span) := by
  induction ns generalizing cursor with
  | nil => rfl
  | cons n ns ih =>
    rw [entered]
    split_ifs
    · rw [List.map_cons, List.map_cons, ih]
    · rw [List.map_cons, List.map_cons, ih]

theorem exists_of_mem_entered {cursor : Nat} {ns : List Node} {t : Entry}
    (h : t ∈ entered text cursor ns) : ∃ n ∈ ns, t.origin = n.span ∧ t.kind = n.kind := by
  induction ns generalizing cursor with
  | nil => cases h
  | cons n ns ih =>
    rw [entered] at h
    split_ifs at h
    all_goals
      obtain rfl | h := List.mem_cons.mp h
      · exact ⟨n, List.mem_cons_self, rfl, rfl⟩
      · obtain ⟨m, hm, heq⟩ := ih h
        exact ⟨m, List.mem_cons_of_mem n hm, heq⟩

theorem Fits.aims {leaves : List Site} (h : e.Fits leaves) (text : List Char) (cursor : Nat) :
    e.Aims (cells (entered text cursor (leaves.map (·.node)))) where
  word := h.word
  kind c hc horigin := by
    obtain ⟨t, ht, horigin', hkind⟩ := exists_of_mem_cells hc
    obtain ⟨n, hn, hspan, hkind'⟩ := exists_of_mem_entered ht
    obtain ⟨leaf, hleaf, rfl⟩ := List.mem_map.mp hn
    rw [hkind, hkind']
    exact h.kind leaf hleaf (hspan.symm.trans (horigin'.symm.trans horigin))
  stays htext := by
    rw [map_origin_cells, map_origin_entered, List.map_map]
    exact h.stays htext

end TokenEdit

namespace Relocation

variable {r : Relocation} {declaration : Site} {edits : List TokenEdit}

-- The text of a sound tree with replacements of its leaves.
theorem splice_leaves {text : List Char} {s : Site} (h : s.node.Sound text) :
    Patch.splice text s.span.start s.span.stop
      (TokenEdit.replacements edits (s.leaves.map (·.span))) =
        .ok (((cells (entered text s.span.start (s.leaves.map (·.node)))).filterMap
          (TokenEdit.revised edits)).flatMap Cell.chars) := by
  obtain ⟨first, hfirst, hstart⟩ := Site.exists_head?_leaves h
  obtain ⟨last, hlast, hstop⟩ := Site.exists_getLast?_leaves h
  obtain ⟨rest, hleaves⟩ := List.head?_eq_some_iff.mp hfirst
  have hns : ∀ n ∈ s.leaves.map (·.node), n.children = [] ∧ n.Sound text := by
    intro n hn
    obtain ⟨t, ht, rfl⟩ := List.mem_map.mp hn
    obtain ⟨hmem, hleaf⟩ := Site.mem_leaves.mp ht
    exact ⟨hleaf, Site.sound_of_mem_preorder h hmem⟩
  have hspans : s.leaves.map (·.span) = (s.leaves.map (·.node)).map (·.span) := by
    rw [List.map_map]
    rfl
  have hend : ((s.leaves.map (·.node)).getLast?.map (·.span.stop)).getD s.span.start =
      s.span.stop := by
    rw [List.getLast?_map, hlast]
    exact hstop
  have hinOrder := Site.inOrder_leaves h
  rw [hspans] at hinOrder
  have hbound : Text.isBoundary s.span.start text = true := h.fits.start
  have hgap : (gapOf (entered text s.span.start (s.leaves.map (·.node)))).toList = [] := by
    have hleaf : first.node.children = [] := (hns first.node (by simp [hleaves])).left
    rw [hleaves, List.map_cons, TokenEdit.toList_gapOf_entered hleaf, ← hstart]
    exact Text.slice_point text _
  rw [hspans, TokenEdit.splice_replacements hns hbound hend hinOrder, hgap, List.nil_append]

-- Edits that agree are carried out, each as a replacement in the text of the declaration.
theorem splice_of_editedText (hsound : declaration.node.Sound r.source.text)
    (hfits : ∀ e ∈ edits, e.Fits declaration.leaves)
    (hagree : ∀ e ∈ edits, ∀ e' ∈ edits, e.origin = e'.origin → e = e') :
    ∃ out, r.editedText declaration edits = .ok out ∧
      Patch.splice r.source.text declaration.span.start declaration.span.stop
        (TokenEdit.replacements edits (declaration.leaves.map (·.span))) = .ok out.toList := by
  have ⟨hlowered, hroot⟩ := Arena.editable_lower hsound r.source.text
  obtain ⟨copied, hclone, hcopied, htokens⟩ := hlowered.exists_clone hroot
  rw [Arena.tokens_lower, ← Site.map_node_leaves] at htokens
  have hinOrder := Site.inOrder_leaves hsound
  have hstart : Arena.Copied copied 0 (cells (entered r.source.text declaration.span.start
      (declaration.leaves.map (·.node)))) := by
    refine ⟨hcopied, ?_, congrArg cells htokens, ?_⟩
    · refine Option.eq_none_iff_forall_ne_some.mpr fun p hp => ?_
      exact Nat.not_lt_zero p (hcopied.linked.lt hp)
    · rw [map_origin_cells, TokenEdit.map_origin_entered, List.map_map]
      refine hinOrder.pairwise.imp_of_mem fun {s t} hs ht hle heq => ?_
      have := (hinOrder.mem hs).right.left
      rw [← heq] at hle
      omega
  obtain ⟨edited, hedits, hedited⟩ :=
    TokenEdit.exists_forM_copied (fun e he => (hfits e he).aims _ _) hstart
  obtain ⟨out, hout⟩ : ∃ out, edited.render 0 = .ok out := ⟨_, Arena.render_eq edited 0⟩
  have hrun : (TokenEdit.applyToCopy (Arena.empty.lower r.source.text declaration.node).2
      (Arena.empty.lower r.source.text declaration.node).1 edits).run Arena.empty =
        .ok 0 edited := by
    rw [TokenEdit.applyToCopy, Arena.Step.run_bind_of_ok hclone, Arena.Step.run_bind_of_ok hedits]
    rfl
  refine ⟨out, ?_, ?_⟩
  · simp only [editedText, hrun]
    exact hout
  · rw [splice_leaves hsound, Arena.toList_of_render hout, hedited.cells,
      TokenEdit.foldl_revise hagree]

end Relocation

end ClassSplit
