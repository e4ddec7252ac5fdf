import ClassSplit.Plan.Repair
import ClassSplit.Proofs.Model.Lookup
import ClassSplit.Proofs.Signature.Collection
import Mathlib.Order.Bounds.Defs

/-!
Completing a selection of methods. A selection grows in rounds; every method that a round adds is
needed by one that is selected, and when a round finds nothing, no private method that a selected
one calls is left out. In a class whose signatures tell its methods apart the selected methods are
then the least set with those requested that is closed under calls of private methods. Main
statements: `run_of_repair`, `Run.tracks` and `Completion.isLeast_resolve`.
-/

namespace ClassSplit

section Distinct

variable {α κ : Type} [DecidableEq κ] {key : α → κ} {xs : List α} {x : α}

theorem nodup_map_distinctOn (key : α → κ) (xs : List α) : ((distinctOn key xs).map key).Nodup := by
  induction xs with
  | nil => exact List.nodup_nil
  | cons x xs ih =>
    rw [distinctOn, List.map_cons, List.nodup_cons]
    refine ⟨?_, ih.sublist (List.filter_sublist.map key)⟩
    simp [List.mem_map]

theorem nodup_distinctOn_id {α : Type} [DecidableEq α] (xs : List α) : (distinctOn id xs).Nodup := by
  simpa only [List.map_id] using nodup_map_distinctOn id xs

theorem mem_map_distinctOn {k : κ} : k ∈ (distinctOn key xs).map key ↔ k ∈ xs.map key := by
  simp only [List.mem_map]
  constructor
  case mp =>
    rintro ⟨x, hx, rfl⟩
    exact ⟨x, mem_of_mem_distinctOn hx, rfl⟩
  case mpr =>
    rintro ⟨x, hx, rfl⟩
    exact exists_mem_distinctOn hx

-- Where different elements have different keys, none is lost.
theorem mem_distinctOn_iff (h : ∀ y ∈ xs, ∀ z ∈ xs, key y = key z → y = z) :
    x ∈ distinctOn key xs ↔ x ∈ xs := by
  constructor
  case mp => exact mem_of_mem_distinctOn
  case mpr =>
    intro hx
    obtain ⟨y, hy, hkey⟩ : ∃ y ∈ distinctOn key xs, key y = key x := exists_mem_distinctOn hx
    exact h y (mem_of_mem_distinctOn hy) x hx hkey ▸ hy

theorem filter_distinctOn_id {α : Type} [DecidableEq α] (p : α → Bool) (xs : List α) :
    (distinctOn id xs).filter p = distinctOn id (xs.filter p) := by
  induction xs with
  | nil => rfl
  | cons x xs ih =>
    by_cases hx : p x = true
    case pos =>
      rw [List.filter_cons_of_pos hx, distinctOn, distinctOn, List.filter_cons_of_pos hx, ← ih,
        List.filter_filter, List.filter_filter]
      simp only [Bool.and_comm]
    case neg =>
      rw [List.filter_cons_of_neg hx, distinctOn, List.filter_cons_of_neg hx, ← ih,
        List.filter_filter]
      refine List.filter_congr ?_
      intro y _
      have hne (hy : p y = true) : y ≠ x := fun h => hx (h ▸ hy)
      cases hy : p y
      case false => rfl
      case true => simpa using hne hy

theorem distinctOn_id_eq_eraseDups {α : Type} [DecidableEq α] (xs : List α) :
    distinctOn id xs = xs.eraseDups :=
  match xs with
  | [] => rfl
  | x :: xs => by
    have := List.length_filter_le (fun y => !y == x) xs
    rw [List.eraseDups_cons, ← distinctOn_id_eq_eraseDups (xs.filter fun y => !y == x),
      ← filter_distinctOn_id, distinctOn]
    simp only [id_eq, ne_eq, decide_not, beq_eq_decide]
termination_by xs.length

end Distinct

namespace Selection

variable {c : ClassModel} {facts : Facts} {requested : List String} {s t : Selection}
  {added : List (String × String)} {m n : Method}

-- A method needs the private methods of the names that it calls.
def Needs (c : ClassModel) (facts : Facts) (m n : Method) : Prop :=
  n ∈ c.properMethods ∧ n.isPrivate = true ∧ n.name ∈ facts.callsOf m

-- The methods that move: those that are requested, and those that a method that moves needs.
inductive Moves (c : ClassModel) (facts : Facts) (requested : List String) : Method → Prop
  | requested {text : String} {m : Method} (mem : text ∈ requested)
      (found : c.findMethod? text = some m) : Moves c facts requested m
  | needed {m n : Method} (moves : Moves c facts requested m) (needs : Needs c facts m n) :
      Moves c facts requested n

theorem mem_properMethods_of_mem_resolve {texts : List String} (h : m ∈ resolve c texts) :
    m ∈ c.properMethods := by
  obtain ⟨_, -, hfound⟩ := List.mem_filterMap.mp (mem_of_mem_distinctOn h)
  exact ClassModel.mem_properMethods_of_findMethod? hfound

theorem mem_missing {addition : String × String} (h : addition ∈ s.missing c facts) :
    ∃ m ∈ resolve c s.methods, ∃ n, Needs c facts m n ∧
      s.known.contains n.signature = false ∧ addition = (n.signature, m.signature) := by
  obtain ⟨m, hm, hmissing⟩ := List.mem_flatMap.mp (mem_of_mem_distinctOn h)
  obtain ⟨callee, hcallee, haddition⟩ := List.mem_flatMap.mp hmissing
  obtain ⟨n, hn, rfl⟩ := List.mem_map.mp haddition
  obtain ⟨hnamed, hneeded⟩ := List.mem_filter.mp hn
  obtain ⟨hproper, rfl⟩ := ClassModel.mem_methodsNamed.mp hnamed
  rw [Bool.and_eq_true, Bool.not_eq_true'] at hneeded
  exact ⟨m, hm, n, ⟨hproper, hneeded.left, hcallee⟩, hneeded.right, rfl⟩

-- A round that finds nothing leaves out no method that is needed.
theorem contains_of_missing_eq_nil (h : s.missing c facts = []) (hm : m ∈ resolve c s.methods)
    (hneeds : Needs c facts m n) : s.known.contains n.signature = true := by
  by_contra hcontains
  obtain ⟨hproper, hprivate, hcall⟩ := hneeds
  have hnamed : n ∈ c.methodsNamed n.name := ClassModel.mem_methodsNamed.mpr ⟨hproper, rfl⟩
  have hmissing : (n.signature, m.signature) ∈ s.missingCallees c facts m := by
    refine List.mem_flatMap.mpr ⟨n.name, hcall, List.mem_map.mpr ⟨n, ?_, rfl⟩⟩
    exact List.mem_filter.mpr ⟨hnamed, by simp [hprivate, hcontains]⟩
  obtain ⟨addition, haddition, -⟩ : ∃ addition ∈ s.missing c facts, addition.1 = n.signature :=
    exists_mem_distinctOn (List.mem_flatMap.mpr ⟨m, hm, hmissing⟩)
  rw [h] at haddition
  cases haddition

theorem methods_foldl_add (s : Selection) (texts : List String) :
    (texts.foldl add s).methods = s.methods ++ texts := by
  induction texts generalizing s with
  | nil => simp
  | cons text texts ih => simp [ih, add]

-- So many rounds that add something, with all that they add.
inductive Run (c : ClassModel) (facts : Facts) :
    Selection → List (String × String) → Selection → Prop
  | none (s : Selection) : Run c facts s [] s
  | round {s t : Selection} {added : List (String × String)}
      (rest : Run c facts (((s.missing c facts).map Prod.fst).foldl add s) added t) :
      Run c facts s (s.missing c facts ++ added) t

theorem run_of_repair (c : ClassModel) (facts : Facts) (s : Selection) (issues : List Issue)
    (rounds : Nat) :
    ∃ added, Run c facts s added (repair c facts s issues rounds).selection ∧
      (repair c facts s issues rounds).issues = issues ++ added.map inclusionIssue ∧
      ((repair c facts s issues rounds).settled = true →
        (repair c facts s issues rounds).selection.missing c facts = []) := by
  induction rounds generalizing s issues with
  | zero => exact ⟨[], .none s, by simp [repair], by simp [repair]⟩
  | succ rounds ih =>
    simp only [repair]
    split
    case h_1 hmissing => exact ⟨[], .none s, by simp, fun _ => hmissing⟩
    case h_2 =>
      obtain ⟨added, hrun, hissues, hsettled⟩ :=
        ih (((s.missing c facts).map Prod.fst).foldl add s)
          (issues ++ (s.missing c facts).map inclusionIssue)
      exact ⟨_, .round hrun, by simp [hissues], hsettled⟩

theorem Run.methods_eq (h : Run c facts s added t) :
    t.methods = s.methods ++ added.map Prod.fst := by
  induction h with
  | none s => simp
  | round rest ih => rw [ih, methods_foldl_add, List.map_append, List.append_assoc]

-- The known spellings are those of the selected methods.
def Consistent (s : Selection) : Prop :=
  ∃ texts, s.known = .ofList texts ∧ ∀ text, text ∈ texts ↔ text ∈ s.methods

theorem consistent_ofRequest (requested : List String) : (ofRequest requested).Consistent :=
  ⟨requested, rfl, fun _ => (mem_distinctOn_iff fun _ _ _ _ => id).symm⟩

theorem Consistent.add (h : s.Consistent) (text : String) : (s.add text).Consistent := by
  obtain ⟨texts, hknown, hmem⟩ := h
  refine ⟨texts ++ [text], ?_, by simp [Selection.add, hmem]⟩
  rw [Selection.add, hknown, SignatureSet.ofList_concat]

theorem Consistent.foldl_add (h : s.Consistent) (texts : List String) :
    (texts.foldl Selection.add s).Consistent := by
  induction texts generalizing s with
  | nil => exact h
  | cons text texts ih => exact ih (h.add text)

theorem Run.consistent (h : Run c facts s added t) (hs : s.Consistent) : t.Consistent := by
  induction h with
  | none s => exact hs
  | round rest ih => exact ih (hs.foldl_add _)

-- A text is known only if it matches a text that is selected.
theorem Consistent.exists_match (h : s.Consistent) {text : String}
    (hcontains : s.known.contains text = true) :
    ∃ u ∈ s.methods, signaturesMatch u text = true := by
  obtain ⟨texts, hknown, hmem⟩ := h
  obtain ⟨f, hf, hforms⟩ := SignatureSet.contains_iff.mp (hknown ▸ hcontains)
  obtain ⟨u, hu, hfu⟩ := SignatureSet.exists_mem_of_mem_forms hforms
  exact ⟨u, (hmem u).mp hu, Signature.agrees_iff_exists.mpr (.inr ⟨f, hfu, hf⟩)⟩

-- What a selection on the way to its completion satisfies:
-- 1. its known spellings are those of its texts, which are well formed and all different
-- 2. its texts denote methods that move
structure Tracks (c : ClassModel) (facts : Facts) (requested : List String) (s : Selection) :
    Prop where
  consistent : s.Consistent
  wellFormed : ∀ text ∈ s.methods, Signature.WellFormed text
  nodup : s.methods.Nodup
  moves : ∀ text ∈ s.methods, ∀ m, c.findMethod? text = some m → Moves c facts requested m

theorem mem_methods_ofRequest {text : String} :
    text ∈ (ofRequest requested).methods ↔ text ∈ requested :=
  mem_distinctOn_iff fun _ _ _ _ => id

theorem tracks_ofRequest (c : ClassModel) (facts : Facts)
    (hw : ∀ text ∈ requested, Signature.WellFormed text) :
    Tracks c facts requested (ofRequest requested) where
  consistent := consistent_ofRequest requested
  wellFormed _ h := hw _ (mem_methods_ofRequest.mp h)
  nodup := nodup_distinctOn_id requested
  moves _ h _ hfound := .requested (mem_methods_ofRequest.mp h) hfound

theorem Tracks.contains_iff (h : Tracks c facts requested s) {text : String}
    (hw : Signature.WellFormed text) :
    s.known.contains text = true ↔ ∃ u ∈ s.methods,
      (Signature.ofString u).erasure = (Signature.ofString text).erasure := by
  obtain ⟨texts, hknown, hmem⟩ := h.consistent
  have htexts : ∀ u ∈ texts, Signature.WellFormed u := fun u hu =>
    h.wellFormed u ((hmem u).mp hu)
  simp only [hknown, SignatureSet.contains_ofList htexts hw, hmem]

theorem mem_resolve_of_spans {texts : List String} (hspans : ∀ m ∈ c.properMethods,
    ∀ n ∈ c.properMethods, m.span = n.span → m = n) :
    m ∈ resolve c texts ↔ ∃ text ∈ texts, c.findMethod? text = some m := by
  rw [resolve, mem_distinctOn_iff, List.mem_filterMap]
  intro m hm n hn
  obtain ⟨_, -, hm⟩ := List.mem_filterMap.mp hm
  obtain ⟨_, -, hn⟩ := List.mem_filterMap.mp hn
  exact hspans m (ClassModel.mem_properMethods_of_findMethod? hm) n
    (ClassModel.mem_properMethods_of_findMethod? hn)

theorem mem_resolve (hc : c.Unambiguous) {texts : List String} :
    m ∈ resolve c texts ↔ ∃ text ∈ texts, c.findMethod? text = some m :=
  mem_resolve_of_spans hc.eq_of_span_eq

theorem Tracks.moves_of_mem_resolve (h : Tracks c facts requested s)
    (hm : m ∈ resolve c s.methods) : Moves c facts requested m := by
  obtain ⟨text, htext, hfound⟩ := List.mem_filterMap.mp (mem_of_mem_distinctOn hm)
  exact h.moves text htext m hfound

-- A round adds signatures of methods that are needed, none of which is selected.
theorem Tracks.round (h : Tracks c facts requested s) (hc : c.Unambiguous) :
    Tracks c facts requested (((s.missing c facts).map Prod.fst).foldl add s) := by
  have hadded : ∀ text ∈ (s.missing c facts).map Prod.fst, ∃ n ∈ c.properMethods,
      text = n.signature ∧ Moves c facts requested n ∧ s.known.contains text = false := by
    intro text htext
    obtain ⟨addition, haddition, rfl⟩ := List.mem_map.mp htext
    obtain ⟨m, hm, n, hneeds, hunknown, rfl⟩ := mem_missing haddition
    exact ⟨n, hneeds.left, rfl, .needed (h.moves_of_mem_resolve hm) hneeds, hunknown⟩
  refine ⟨h.consistent.foldl_add _, ?_, ?_, ?_⟩
  · intro text htext
    rw [methods_foldl_add, List.mem_append] at htext
    cases htext with
    | inl htext => exact h.wellFormed text htext
    | inr htext =>
      obtain ⟨n, hn, rfl, -⟩ := hadded text htext
      exact hc.wellFormed n hn
  · rw [methods_foldl_add, List.nodup_append]
    refine ⟨h.nodup, nodup_map_distinctOn _ _, ?_⟩
    rintro u hu _ htext rfl
    obtain ⟨n, hn, rfl, -, hunknown⟩ := hadded u htext
    rw [(h.contains_iff (hc.wellFormed n hn)).mpr ⟨_, hu, rfl⟩] at hunknown
    cases hunknown
  · intro text htext m hfound
    rw [methods_foldl_add, List.mem_append] at htext
    cases htext with
    | inl htext => exact h.moves text htext m hfound
    | inr htext =>
      obtain ⟨n, hn, rfl, hmoves, -⟩ := hadded text htext
      rw [hc.findMethod?_signature hn] at hfound
      exact Option.some.inj hfound ▸ hmoves

theorem Run.tracks (h : Run c facts s added t) (hc : c.Unambiguous)
    (hs : Tracks c facts requested s) : Tracks c facts requested t := by
  induction h with
  | none s => exact hs
  | round rest ih => exact ih (hs.round hc)

-- What is added in a run are signatures of private methods.
theorem Run.exists_private (h : Run c facts s added t) :
    ∀ addition ∈ added, ∃ n ∈ c.properMethods, n.isPrivate = true ∧ addition.1 = n.signature := by
  induction h with
  | none s => simp
  | round rest ih =>
    intro addition haddition
    cases List.mem_append.mp haddition with
    | inl hmissing =>
      obtain ⟨-, -, n, ⟨hn, hprivate, -⟩, -, rfl⟩ := mem_missing hmissing
      exact ⟨n, hn, hprivate, rfl⟩
    | inr hrest => exact ih addition hrest

-- A set of methods that has those requested and the private methods that its members call.
structure Sufficient (c : ClassModel) (facts : Facts) (requested : List String)
    (methods : Set Method) : Prop where
  requested : ∀ text ∈ requested, ∀ m, c.findMethod? text = some m → m ∈ methods
  needed : ∀ m ∈ methods, ∀ n, Needs c facts m n → n ∈ methods

theorem isLeast_moves (c : ClassModel) (facts : Facts) (requested : List String) :
    IsLeast {methods | Sufficient c facts requested methods} {m | Moves c facts requested m} := by
  refine ⟨⟨fun _ htext _ => .requested htext, fun _ hm _ => .needed hm⟩, ?_⟩
  intro methods hmethods m hm
  induction hm with
  | requested mem found => exact hmethods.requested _ mem _ found
  | needed _ needs ih => exact hmethods.needed _ ih _ needs

-- The methods whose signatures are known are those that are selected.
theorem Tracks.contains_iff_mem_resolve (h : Tracks c facts requested s) (hc : c.Unambiguous)
    (hm : m ∈ c.properMethods) :
    s.known.contains m.signature = true ↔ m ∈ resolve c s.methods := by
  rw [h.contains_iff (hc.wellFormed m hm), mem_resolve hc]
  refine exists_congr fun u => and_congr_right fun hu => ?_
  rw [hc.findMethod?_eq_some_iff (h.wellFormed u hu)]
  exact ⟨fun herasure => ⟨hm, herasure.symm⟩, fun hfound => hfound.right.symm⟩

-- A selection that is complete, with what has been added to the request for it.
structure Completion (c : ClassModel) (facts : Facts) (requested : List String)
    (added : List (String × String)) (s : Selection) : Prop where
  run : Run c facts (ofRequest requested) added s
  missing_eq_nil : s.missing c facts = []

namespace Completion

theorem methods_eq (h : Completion c facts requested added s) :
    s.methods = requested.eraseDups ++ added.map Prod.fst := by
  rw [h.run.methods_eq, ofRequest, distinctOn_id_eq_eraseDups]

-- A private method that is needed matches a text that is selected.
theorem exists_match (h : Completion c facts requested added s) (hm : m ∈ resolve c s.methods)
    (hneeds : Needs c facts m n) : ∃ u ∈ s.methods, signaturesMatch u n.signature = true :=
  (h.run.consistent (consistent_ofRequest requested)).exists_match
    (contains_of_missing_eq_nil h.missing_eq_nil hm hneeds)

section

variable (h : Completion c facts requested added s) (hc : c.Unambiguous)
  (hw : ∀ text ∈ requested, Signature.WellFormed text)

include h hc hw

theorem tracks : Tracks c facts requested s := h.run.tracks hc (tracks_ofRequest c facts hw)

-- The methods that are selected are those that move.
theorem mem_resolve_iff : m ∈ resolve c s.methods ↔ Moves c facts requested m := by
  have htracks := h.tracks hc hw
  constructor
  case mp => exact htracks.moves_of_mem_resolve
  case mpr =>
    intro hm
    induction hm with
    | @requested text m mem found =>
      have htext : text ∈ s.methods := by
        rw [h.run.methods_eq]
        exact List.mem_append_left _ (mem_methods_ofRequest.mpr mem)
      exact (mem_resolve hc).mpr ⟨text, htext, found⟩
    | needed _ needs ih =>
      exact (htracks.contains_iff_mem_resolve hc needs.left).mp
        (contains_of_missing_eq_nil h.missing_eq_nil ih needs)

theorem contains_iff (hm : m ∈ c.properMethods) :
    s.known.contains m.signature = true ↔ Moves c facts requested m := by
  rw [(h.tracks hc hw).contains_iff_mem_resolve hc hm, h.mem_resolve_iff hc hw]

theorem isLeast_resolve :
    IsLeast {methods | Sufficient c facts requested methods} {m | m ∈ resolve c s.methods} := by
  have hmoves := isLeast_moves c facts requested
  simpa only [h.mem_resolve_iff hc hw] using hmoves

end

end Completion

end Selection

end ClassSplit
