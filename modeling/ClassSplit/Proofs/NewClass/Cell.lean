import ClassSplit.Proofs.Java.Leaf
import ClassSplit.Proofs.Java.Pruning
import ClassSplit.Proofs.Model.OfTree
import ClassSplit.Proofs.NewClass.Edit
import ClassSplit.Proofs.Patch.Splice

/-!
Edits of a copied declaration, token by token. Each token of the copy is seen together with the gap
behind it: an edit then changes the one with its span or drops it, and leaves all others alone. Main
statements: `TokenEdit.exists_forM_copied`, `TokenEdit.foldl_revise`.
-/

namespace ClassSplit

open Java

namespace Java

-- A token of a copy and the gap behind it.
structure Cell where
  kind : Kind
  origin : Span
  text : String
  gap : String

def Cell.chars (c : Cell) : List Char := c.text.toList ++ c.gap.toList

def cells : List Entry → List Cell
  | [] => []
  | t :: ts => ⟨t.kind, t.origin, t.text.getD "", gapOf ts⟩ :: cells ts

theorem map_origin_cells (ts : List Entry) : (cells ts).map (·.origin) = ts.map (·.origin) := by
  induction ts with
  | nil => rfl
  | cons t ts ih => rw [cells, List.map_cons, List.map_cons, ih]

theorem exists_of_mem_cells {ts : List Entry} {c : Cell} (h : c ∈ cells ts) :
    ∃ t ∈ ts, c.origin = t.origin ∧ c.kind = t.kind := by
  induction ts with
  | nil => cases h
  | cons t ts ih =>
    obtain rfl | h := List.mem_cons.mp h
    · exact ⟨t, List.mem_cons_self, rfl, rfl⟩
    · obtain ⟨u, hu, heq⟩ := ih h
      exact ⟨u, List.mem_cons_of_mem t hu, heq⟩

theorem toList_renderTokens (ts : List ArenaNode) :
    (Arena.renderTokens ts).toList = (cells (ts.map (·.entry))).flatMap Cell.chars := by
  have hrest (ts : List ArenaNode) :
      (String.join (ts.map fun t => t.gap ++ t.text.getD "")).toList =
        (gapOf (ts.map (·.entry))).toList ++ (cells (ts.map (·.entry))).flatMap Cell.chars := by
    induction ts with
    | nil => rfl
    | cons t ts ih =>
      rw [List.map_cons, String.join_cons, String.toList_append, ih, List.map_cons, cells,
        List.flatMap_cons, Cell.chars, String.toList_append]
      simp only [gapOf, ArenaNode.entry, List.append_assoc]
  cases ts with
  | nil => rfl
  | cons t ts =>
    rw [Arena.renderTokens, String.toList_append, hrest, List.map_cons, cells, List.flatMap_cons,
      Cell.chars, List.append_assoc]
    rfl

namespace Arena

variable {a : Arena} {root : Nat}

theorem toList_of_render {text : String} (h : a.render root = .ok text) :
    text.toList = (cells (a.tokens root)).flatMap Cell.chars := by
  rw [render_eq] at h
  cases h
  rw [toList_renderTokens, map_entry_filterMap, tokens]

end Arena

end Java

namespace TokenEdit

variable {e : TokenEdit} {edits : List TokenEdit} {c c' : Cell} {cs : List Cell}

-- What an edit makes of a token.
def revise (e : TokenEdit) (c : Cell) : Option Cell :=
  if c.origin = e.origin then e.text.map fun text => { c with text } else some c

theorem revise_eq_some (h : e.revise c = some c') : c'.origin = c.origin ∧ c'.kind = c.kind := by
  rw [revise] at h
  split at h
  · obtain ⟨text, -, rfl⟩ := Option.map_eq_some_iff.mp h
    exact ⟨rfl, rfl⟩
  · cases h
    exact ⟨rfl, rfl⟩

theorem filterMap_revise_of_ne (h : ∀ c ∈ cs, c.origin ≠ e.origin) :
    cs.filterMap e.revise = cs := by
  have hall : cs.filterMap e.revise = cs.filterMap some :=
    List.filterMap_congr fun c hc => by rw [revise, if_neg (h c hc)]
  rw [hall, List.filterMap_some]

section Cells

variable {front back : List Entry} {t : Entry}

theorem origin_ne_of_mem_cells (horigin : t.origin = e.origin)
    (hnodup : ((t :: back).map (·.origin)).Nodup) (hc : c ∈ cells back) : c.origin ≠ e.origin := by
  intro heq
  obtain ⟨u, hu, horigin', -⟩ := exists_of_mem_cells hc
  exact (List.nodup_cons.mp hnodup).left
    (List.mem_map.mpr ⟨u, hu, horigin'.symm.trans (heq.trans horigin.symm)⟩)

theorem origin_ne_of_front {u : Entry} (horigin : t.origin = e.origin)
    (hnodup : ((u :: (front ++ t :: back)).map (·.origin)).Nodup) : u.origin ≠ e.origin := by
  intro heq
  exact (List.nodup_cons.mp hnodup).left
    (List.mem_map.mpr ⟨t, by simp, horigin.trans heq.symm⟩)

theorem cells_setText {text : String} (horigin : t.origin = e.origin) (htext : e.text = some text)
    (hnodup : ((front ++ t :: back).map (·.origin)).Nodup) :
    cells (front ++ t.withText text :: back) =
      (cells (front ++ t :: back)).filterMap e.revise := by
  induction front with
  | nil =>
    rw [List.nil_append, List.nil_append, cells, cells, List.filterMap_cons,
      filterMap_revise_of_ne fun c => origin_ne_of_mem_cells horigin hnodup, revise,
      if_pos horigin, htext]
    rfl
  | cons u front ih =>
    have hgap : gapOf (front ++ t.withText text :: back) = gapOf (front ++ t :: back) := by
      cases front <;> rfl
    have hrest := ih (List.nodup_cons.mp hnodup).right
    rw [List.cons_append, List.cons_append, cells, cells, hgap, hrest, List.filterMap_cons, revise,
      if_neg (origin_ne_of_front horigin hnodup)]

theorem cells_remove (horigin : t.origin = e.origin) (htext : e.text = none) (hback : back ≠ [])
    (hnodup : ((front ++ t :: back).map (·.origin)).Nodup) :
    cells (front ++ Arena.passOn t.gap back) = (cells (front ++ t :: back)).filterMap e.revise := by
  induction front with
  | nil =>
    -- The gap in front of the first token is in no cell.
    have hfirst : cells (Arena.passOn t.gap back) = cells back := by
      cases back <;> rfl
    rw [List.nil_append, List.nil_append, hfirst, cells, List.filterMap_cons,
      filterMap_revise_of_ne fun c => origin_ne_of_mem_cells horigin hnodup, revise,
      if_pos horigin, htext]
    rfl
  | cons u front ih =>
    have hgap : gapOf (front ++ Arena.passOn t.gap back) = gapOf (front ++ t :: back) := by
      cases front with
      | nil =>
        cases back with
        | nil => exact absurd rfl hback
        | cons => rfl
      | cons => rfl
    have hrest := ih (List.nodup_cons.mp hnodup).right
    rw [List.cons_append, List.cons_append, cells, cells, hgap, hrest, List.filterMap_cons, revise,
      if_neg (origin_ne_of_front horigin hnodup)]

end Cells

-- An edit is of a token of its kind, if there is one at its span, and it removes none at the end.
structure Aims (e : TokenEdit) (cs : List Cell) : Prop where
  word : ∀ kind : Kind, kind.name = e.kind.name → kind.isWord = true
  kind : ∀ c ∈ cs, c.origin = e.origin → c.kind = e.kind
  stays : e.text = none → (cs.map (·.origin)).getLast? ≠ some e.origin

theorem Aims.filterMap {e' : TokenEdit} (h : e.Aims cs) (h' : e'.Aims cs) :
    e.Aims (cs.filterMap e'.revise) where
  word := h.word
  kind c hc horigin := by
    obtain ⟨c', hc', hrevise⟩ := List.mem_filterMap.mp hc
    obtain ⟨heq, hkind⟩ := revise_eq_some hrevise
    rw [hkind]
    exact h.kind c' hc' (heq ▸ horigin)
  stays htext := by
    have hlast : ((cs.filterMap e'.revise).map (·.origin)).getLast? =
        (cs.map (·.origin)).getLast? := by
      obtain rfl | ⟨init, c, rfl⟩ := List.eq_nil_or_concat' cs
      · rfl
      · have hkept : ∃ c', e'.revise c = some c' := by
          rw [revise]
          split
          case isTrue horigin =>
            cases htext' : e'.text with
            | none => exact absurd (by simp [horigin]) (h'.stays htext')
            | some text => exact ⟨_, rfl⟩
          case isFalse => exact ⟨c, rfl⟩
        obtain ⟨c', hc'⟩ := hkept
        rw [List.filterMap_append, List.filterMap_cons_some hc', List.filterMap_nil]
        simp [(revise_eq_some hc').left]
    rw [hlast]
    exact h.stays htext

end TokenEdit

namespace Java.Arena

-- A tree that has been copied and edited, and its tokens.
structure Copied (a : Arena) (root : Nat) (cs : List Cell) : Prop where
  editable : a.Editable
  top : a.parent? root = none
  cells : Java.cells (a.tokens root) = cs
  nodup : (cs.map (·.origin)).Nodup

end Java.Arena

open Java.Arena (Copied)

namespace TokenEdit

variable {e : TokenEdit} {edits : List TokenEdit} {c : Cell} {cs : List Cell} {a : Arena}
  {root : Nat}

-- What is found is the token at the span.
theorem Aims.exists_split (h : e.Aims cs) (ha : Copied a root cs) {id : Nat}
    (hid : a.findByOrigin? root e.origin e.kind.name = some id) : ∃ front back n,
      a.leaves root = front ++ id :: back ∧ a.nodes[id]? = some n ∧ n.origin = e.origin := by
  have htest := List.find?_some hid
  obtain ⟨n, hn, hkind⟩ := Arena.exists_of_findByOrigin? hid
  have htoken := ha.editable.isToken hn (h.word n.kind hkind)
  have hleaf : id ∈ a.leaves root :=
    List.mem_filter.mpr ⟨List.mem_of_find?_eq_some hid, htoken⟩
  obtain ⟨front, back, hsplit⟩ := List.append_of_mem hleaf
  refine ⟨front, back, n, hsplit, hn, ?_⟩
  rw [hn] at htest
  simpa using (Bool.and_eq_true_iff.mp htest).left

theorem Aims.ne_of_findByOrigin? (h : e.Aims cs) (ha : Copied a root cs)
    (hnone : a.findByOrigin? root e.origin e.kind.name = none) : ∀ c ∈ cs, c.origin ≠ e.origin := by
  intro c hc horigin
  have hkind := h.kind c hc horigin
  rw [← ha.cells] at hc
  obtain ⟨t, ht, horigin', hkind'⟩ := exists_of_mem_cells hc
  obtain ⟨id, hid, hentry⟩ := List.mem_filterMap.mp ht
  obtain ⟨n, hn, rfl⟩ := Option.map_eq_some_iff.mp hentry
  have hfails := List.find?_eq_none.mp hnone id (List.mem_filter.mp hid).left
  rw [hn] at hfails
  have hn_origin : n.origin = e.origin := horigin'.symm.trans horigin
  have hn_kind : n.kind = e.kind := hkind'.symm.trans hkind
  simp [hn_origin, hn_kind] at hfails

theorem Aims.exists_apply (h : e.Aims cs) (ha : Copied a root cs) :
    ∃ b, (e.apply root).run a = .ok () b ∧ Copied b root (cs.filterMap e.revise) := by
  have hget : (EStateM.get : Arena.Step Arena).run a = .ok a a := rfl
  have hnodup : ((cs.filterMap e.revise).map (·.origin)).Nodup :=
    ha.nodup.sublist (map_filterMap_sublist (fun _ _ hc => (revise_eq_some hc).left) cs)
  have htokens := ha.cells
  rw [apply, Arena.Step.run_bind_of_ok hget]
  split
  case h_1 _ hnone =>
    refine ⟨a, rfl, ha.editable, ha.top, ?_, hnodup⟩
    rw [filterMap_revise_of_ne (h.ne_of_findByOrigin? ha hnone), htokens]
  case h_2 id text hid htext =>
    obtain ⟨front, back, n, hsplit, hn, horigin⟩ := h.exists_split ha hid
    obtain ⟨b, hb, halike, hnew⟩ := ha.editable.linked.exists_setText_token hsplit hn text
    rw [Arena.tokens_split hsplit hn] at htokens
    refine ⟨b, hb, ⟨halike.linked ha.editable.linked, halike.labels_eq ▸ ha.editable.words⟩,
      (halike.parent?_eq root).trans ha.top, ?_, hnodup⟩
    rw [hnew, ← htokens]
    refine cells_setText horigin htext ?_
    rw [← map_origin_cells, htokens]
    exact ha.nodup
  case h_3 id hid htext =>
    obtain ⟨front, back, n, hsplit, hn, horigin⟩ := h.exists_split ha hid
    have hlast := h.stays htext
    rw [← htokens, map_origin_cells] at hlast
    have hback : a.entriesAt back ≠ [] := by
      intro hnil
      rw [Arena.tokens_split hsplit hn, hnil] at hlast
      exact hlast (by simp [ArenaNode.entry, horigin])
    have hne : root ≠ id := by
      rintro rfl
      obtain ⟨-, -, htoken⟩ := ha.editable.linked.exists_node_of_split hsplit
      rw [ha.editable.linked.leaves_of_isToken htoken] at hsplit
      have hlength := congrArg List.length hsplit
      rw [List.length_singleton, List.length_append, List.length_cons] at hlength
      have hnone : back = [] := List.eq_nil_of_length_eq_zero (by omega)
      exact hback (by rw [hnone]; rfl)
    obtain ⟨b, hb, hcut, hnew⟩ := ha.editable.linked.exists_remove_token ha.top hsplit hn hne
    rw [Arena.tokens_split hsplit hn] at htokens
    refine ⟨b, hb, ⟨hcut.linked ha.editable.linked, hcut.labels_eq ▸ ha.editable.words⟩, ?_, ?_,
      hnodup⟩
    · rw [hcut.parent?_eq, if_neg hne, ha.top]
    · rw [hnew, ← htokens]
      refine cells_remove (show n.entry.origin = e.origin from horigin) htext hback ?_
      rw [← map_origin_cells, htokens]
      exact ha.nodup

theorem exists_forM_copied (h : ∀ e ∈ edits, e.Aims cs) (ha : Copied a root cs) :
    ∃ b, (forM edits (·.apply root) : Arena.Step Unit).run a = .ok () b ∧
      Copied b root (edits.foldl (fun cs e => cs.filterMap e.revise) cs) := by
  induction edits generalizing a cs with
  | nil => exact ⟨a, rfl, ha⟩
  | cons e edits ih =>
    have hfirst := h e List.mem_cons_self
    obtain ⟨b, hb, hcopied⟩ := hfirst.exists_apply ha
    rw [List.forM_cons, Arena.Step.run_bind_of_ok hb]
    exact ih (fun e' he' => (h e' (List.mem_cons_of_mem e he')).filterMap hfirst) hcopied

-- What is asked of a token.
def revised (edits : List TokenEdit) (c : Cell) : Option Cell :=
  match edits.find? (·.origin = c.origin) with
  | none => some c
  | some e => e.text.map fun text => { c with text }

theorem revised_of_agree (h : ∀ e ∈ edits, e.origin = c.origin → e.text = some c.text) :
    revised edits c = some c := by
  rw [revised]
  split
  case h_1 => rfl
  case h_2 e hfind =>
    have horigin : e.origin = c.origin := by simpa using List.find?_some hfind
    rw [h e (List.mem_of_find?_eq_some hfind) horigin]
    rfl

-- Edits that ask nothing different of one token may come in any order.
theorem foldl_revise (h : ∀ e ∈ edits, ∀ e' ∈ edits, e.origin = e'.origin → e = e') :
    edits.foldl (fun cs e => cs.filterMap e.revise) cs = cs.filterMap (revised edits) := by
  induction edits generalizing cs with
  | nil => exact List.filterMap_some.symm
  | cons e edits ih =>
    have hrest : ∀ e ∈ edits, ∀ e' ∈ edits, e.origin = e'.origin → e = e' := fun e he e' he' =>
      h e (List.mem_cons_of_mem _ he) e' (List.mem_cons_of_mem _ he')
    rw [List.foldl_cons, ih hrest, List.filterMap_filterMap]
    refine List.filterMap_congr fun c _ => ?_
    by_cases horigin : c.origin = e.origin
    case pos =>
      have hfind : (e :: edits).find? (·.origin = c.origin) = some e :=
        List.find?_cons_of_pos (by simp [horigin])
      simp only [revise, if_pos horigin, revised.eq_1 (e :: edits), hfind]
      cases htext : e.text with
      | none => rfl
      | some text =>
        refine revised_of_agree fun e' he' horigin' => ?_
        rw [← htext, h e List.mem_cons_self e' (List.mem_cons_of_mem e he')]
        exact horigin.symm.trans horigin'.symm
    case neg =>
      rw [revise, if_neg horigin, Option.bind_some, revised, revised,
        List.find?_cons_of_neg (by simpa using Ne.symm horigin)]

end TokenEdit

end ClassSplit
