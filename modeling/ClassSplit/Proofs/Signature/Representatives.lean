import ClassSplit.Proofs.Signature.Collection

/-!
A collection of signatures keeps the first text of every group of texts that match. What an
insertion answers, and what is a member afterwards, can be told from the texts that came before,
whether they were accepted or not. Main statement: `representatives_of_tryInsertAll`.
-/

namespace ClassSplit

open Signature

namespace SignatureSet

variable {s : SignatureSet} {texts texts' before : List String} {text u : String}
  {answers : List Bool}

-- The text matches none of those that were inserted before it.
def matchesNone (before : List String) (text : String) : Bool :=
  before.all (!signaturesMatch · text)

theorem signaturesMatch_iff (hu : WellFormed u) (ht : WellFormed text) :
    signaturesMatch u text = true ↔ (ofString u).erasure = (ofString text).erasure :=
  agrees_iff hu ht

theorem signaturesMatch_comm (hu : WellFormed u) (ht : WellFormed text) :
    signaturesMatch u text = signaturesMatch text u := by
  rw [Bool.eq_iff_iff, signaturesMatch_iff hu ht, signaturesMatch_iff ht hu]
  exact eq_comm

theorem contains_ofList_iff_match (hw : ∀ u ∈ texts, WellFormed u) (ht : WellFormed text) :
    (ofList texts).contains text = true ↔ ∃ u ∈ texts, signaturesMatch u text = true := by
  rw [contains_ofList hw ht]
  refine exists_congr fun u => and_congr_right fun hu => ?_
  exact (signaturesMatch_iff (hw u hu) ht).symm

theorem not_contains_ofList (hw : ∀ u ∈ before, WellFormed u) (ht : WellFormed text) :
    (!(ofList before).contains text) = matchesNone before text := by
  rw [Bool.eq_iff_iff, Bool.not_eq_true', ← Bool.not_eq_true, contains_ofList_iff_match hw ht]
  simp [matchesNone]

-- The first component of a run is given by the texts alone.
theorem tryInsertAll_ofList (hbefore : ∀ u ∈ before, WellFormed u)
    (hw : ∀ text ∈ texts, WellFormed text) :
    (ofList before).tryInsertAll texts =
      (List.zipWith (fun earlier text => matchesNone (before ++ earlier) text) texts.inits texts,
        ofList (before ++ texts)) := by
  induction texts generalizing before with
  | nil => simp
  | cons text texts ih =>
    have htext : WellFormed text := hw text List.mem_cons_self
    have hstep : ∀ u ∈ before ++ [text], WellFormed u := by
      intro u hu
      rcases List.mem_append.mp hu with hu | hu
      · exact hbefore u hu
      · exact List.mem_singleton.mp hu ▸ htext
    have hrest : ∀ u ∈ texts, WellFormed u := fun u hu => hw u (List.mem_cons_of_mem _ hu)
    rw [tryInsertAll_cons, ← ofList_concat, ih hstep hrest, not_contains_ofList hbefore htext]
    simp [List.zipWith_map_left]

-- An accepted text is put at the end and a refused one is left out, whatever was there before.
theorem entries_tryInsertAll (s : SignatureSet) (texts : List String) :
    (s.tryInsertAll texts).2.entries =
      s.entries ++ ((texts.zip (s.tryInsertAll texts).1).filter Prod.snd).map Prod.fst := by
  induction texts generalizing s with
  | nil => simp
  | cons text texts ih =>
    rw [tryInsertAll_cons]
    cases h : s.contains text with
    | true => simp [ih, insert_of_contains h]
    | false => simp [ih, entries_insert_of_not_contains h]

theorem mem_of_mem_entries_ofList (h : u ∈ (ofList texts).entries) : u ∈ texts := by
  induction texts using List.reverseRecOn with
  | nil => exact absurd h List.not_mem_nil
  | append_singleton texts text ih =>
    rw [ofList_concat] at h
    cases hcontains : (ofList texts).contains text with
    | true =>
      rw [insert_of_contains hcontains] at h
      exact List.mem_append_left _ (ih h)
    | false =>
      rw [entries_insert_of_not_contains hcontains] at h
      rcases List.mem_append.mp h with h | h
      · exact List.mem_append_left _ (ih h)
      · exact List.mem_append_right _ h

-- Neither of the two texts matches the other.
def Apart (a b : String) : Prop := signaturesMatch a b = false ∧ signaturesMatch b a = false

theorem pairwise_apart_entries (hw : ∀ text ∈ texts, WellFormed text) :
    (ofList texts).entries.Pairwise Apart := by
  induction texts using List.reverseRecOn with
  | nil => exact List.Pairwise.nil
  | append_singleton texts text ih =>
    have hwTexts : ∀ u ∈ texts, WellFormed u := fun u hu => hw u (List.mem_append_left _ hu)
    have htext : WellFormed text := hw text (by simp)
    rw [ofList_concat]
    cases hcontains : (ofList texts).contains text with
    | true =>
      rw [insert_of_contains hcontains]
      exact ih hwTexts
    | false =>
      rw [entries_insert_of_not_contains hcontains, List.pairwise_append]
      refine ⟨ih hwTexts, List.pairwise_singleton _ _, ?_⟩
      intro u hu v hv
      obtain rfl := List.mem_singleton.mp hv
      have hmem := mem_of_mem_entries_ofList hu
      have hnone : signaturesMatch u v = false := by
        rw [← Bool.not_eq_true]
        intro hmatch
        have := (contains_ofList_iff_match hwTexts htext).mpr ⟨u, hmem, hmatch⟩
        exact absurd this (by simp [hcontains])
      exact ⟨hnone, signaturesMatch_comm (hwTexts u hmem) htext ▸ hnone⟩

theorem contains_ofList_of_perm (hw : ∀ text ∈ texts, WellFormed text) (hperm : texts.Perm texts')
    (ht : WellFormed text) : (ofList texts').contains text = (ofList texts).contains text := by
  have hw' : ∀ u ∈ texts', WellFormed u := fun u hu => hw u (hperm.mem_iff.mpr hu)
  rw [Bool.eq_iff_iff, contains_ofList_iff_match hw' ht, contains_ofList_iff_match hw ht]
  simp only [hperm.mem_iff]

-- A run of insertions into an empty collection.
theorem representatives_of_tryInsertAll (hw : ∀ text ∈ texts, WellFormed text)
    (hrun : empty.tryInsertAll texts = (answers, s)) :
    answers = List.zipWith matchesNone texts.inits texts ∧
    s.entries = ((texts.zip answers).filter Prod.snd).map Prod.fst ∧
    s.entries.Pairwise Apart ∧
    (∀ text, WellFormed text →
      (s.contains text = true ↔ ∃ u ∈ texts, signaturesMatch u text = true)) ∧
    ∀ texts', texts.Perm texts' → ∀ text, WellFormed text →
      (empty.tryInsertAll texts').2.contains text = s.contains text := by
  have hof : ∀ us : List String, (∀ u ∈ us, WellFormed u) →
      empty.tryInsertAll us = (List.zipWith matchesNone us.inits us, ofList us) := by
    intro us hus
    have hnothing : ∀ u ∈ ([] : List String), WellFormed u := by simp
    exact tryInsertAll_ofList hnothing hus
  have hentries := entries_tryInsertAll empty texts
  rw [hrun] at hentries
  obtain ⟨rfl, rfl⟩ := Prod.mk.inj (hrun.symm.trans (hof texts hw))
  refine ⟨rfl, hentries, pairwise_apart_entries hw, fun text => contains_ofList_iff_match hw, ?_⟩
  intro texts' hperm text ht
  rw [hof texts' fun u hu => hw u (hperm.mem_iff.mpr hu)]
  exact contains_ofList_of_perm hw hperm ht

theorem representatives_of_tryInsertAll_process :
    (∀ text ∈ ["process(String[] args)", "process(String...)", "run()"], WellFormed text) ∧
    ∃ answers s,
      empty.tryInsertAll ["process(String[] args)", "process(String...)", "run()"] = (answers, s) ∧
      answers = [true, false, true] ∧ s.entries = ["process(String[] args)", "run()"] ∧
      s.contains "process(String)" = true := by
  have hw : ∀ text ∈ ["process(String[] args)", "process(String...)", "run()"],
      WellFormed text := by decide +kernel
  obtain ⟨hanswers, hentries, -, hcontains, -⟩ := representatives_of_tryInsertAll hw rfl
  refine ⟨hw, _, _, rfl, ?_, ?_, ?_⟩
  · rw [hanswers]
    decide +kernel
  · rw [hentries, hanswers]
    decide +kernel
  · have hmatch : signaturesMatch "process(String[] args)" "process(String)" = true := by
      decide +kernel
    exact (hcontains _ (by decide +kernel)).mpr ⟨_, List.mem_cons_self, hmatch⟩

end SignatureSet

end ClassSplit
