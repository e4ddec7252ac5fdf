import ClassSplit.Proofs.Plan.Verdict

/-!
The limit on the rounds in which a selection is completed. Every round that adds something makes a
private method known that was not, whatever the methods call and however their signatures are
written, so that one round more than there are private methods is always enough. Beyond the round
that finds nothing the limit does not matter. Main statement: `repairCap_harmless`.
-/

namespace ClassSplit

namespace SignatureSet

variable {s : SignatureSet} {a text : String}

theorem contains_insert_of_contains (h : s.contains text = true) :
    (s.insert a).contains text = true :=
  contains_insert.mpr (.inl h)

-- An insertion is refused only for what is present already.
theorem contains_insert_self (s : SignatureSet) (text : String) :
    (s.insert text).contains text = true := by
  rw [contains_insert]
  cases hcontains : s.contains text with
  | true => exact .inl rfl
  | false =>
    have hbare := (Signature.ofString text).bareForm_mem_forms
    exact .inr ⟨rfl, _, hbare, hbare⟩

end SignatureSet

namespace Selection

variable {c : ClassModel} {facts : Facts} {s t : Selection} {issues : List Issue} {n m : Nat}
  {texts : List String} {text : String}

theorem known_add (s : Selection) (signature : String) :
    (s.add signature).known = s.known.insert signature := by
  rw [add]

theorem contains_foldl_add_of_contains (h : s.known.contains text = true) :
    (texts.foldl add s).known.contains text = true := by
  induction texts generalizing s with
  | nil => exact h
  | cons a texts ih =>
    have hadded : (s.add a).known.contains text = true := by
      rw [known_add]
      exact SignatureSet.contains_insert_of_contains h
    exact ih hadded

theorem contains_foldl_add_of_mem (h : text ∈ texts) :
    (texts.foldl add s).known.contains text = true := by
  induction texts generalizing s with
  | nil => cases h
  | cons a texts ih =>
    cases List.mem_cons.mp h with
    | inl heq =>
      have hadded : (s.add a).known.contains a = true := by
        rw [known_add]
        exact s.known.contains_insert_self a
      rw [heq, List.foldl_cons]
      exact contains_foldl_add_of_contains hadded
    | inr hmem => exact ih hmem

def privateMethods (c : ClassModel) : List Method := c.properMethods.filter (·.isPrivate)

-- The private methods whose signatures a selection does not know.
def privateOutside (c : ClassModel) (s : Selection) : List Method :=
  (privateMethods c).filter (!s.known.contains ·.signature)

theorem mem_privateOutside {x : Method} :
    x ∈ privateOutside c s ↔
      (x ∈ c.properMethods ∧ x.isPrivate = true) ∧ s.known.contains x.signature = false := by
  rw [privateOutside, List.mem_filter, privateMethods, List.mem_filter, Bool.not_eq_true']

theorem privateOutside_foldl_add (c : ClassModel) (s : Selection) (texts : List String) :
    privateOutside c (texts.foldl add s) =
      (privateOutside c s).filter (!(texts.foldl add s).known.contains ·.signature) := by
  rw [privateOutside, privateOutside, List.filter_filter]
  refine List.filter_congr fun x _ => ?_
  cases hcontains : s.known.contains x.signature with
  | true => simp [contains_foldl_add_of_contains hcontains]
  | false => simp

-- What a round adds was not known before it and is known after it.
theorem length_privateOutside_round (h : s.missing c facts ≠ []) :
    (privateOutside c (((s.missing c facts).map Prod.fst).foldl add s)).length <
      (privateOutside c s).length := by
  obtain ⟨addition, haddition⟩ := List.exists_mem_of_ne_nil _ h
  obtain ⟨_, -, x, ⟨hproper, hprivate, -⟩, hunknown, heq⟩ := mem_missing haddition
  have hadded : x.signature ∈ (s.missing c facts).map Prod.fst :=
    List.mem_map.mpr ⟨addition, haddition, by rw [heq]⟩
  rw [privateOutside_foldl_add, List.length_filter_lt_length_iff_exists]
  refine ⟨x, mem_privateOutside.mpr ⟨⟨hproper, hprivate⟩, hunknown⟩, ?_⟩
  simp [contains_foldl_add_of_mem hadded]

theorem repair_succ_of_nil (h : s.missing c facts = []) :
    s.repair c facts issues (n + 1) = ⟨s, issues, true⟩ := by
  rw [repair, h]

theorem repair_succ_of_ne_nil (h : s.missing c facts ≠ []) :
    s.repair c facts issues (n + 1) =
      (((s.missing c facts).map Prod.fst).foldl add s).repair c facts
        (issues ++ (s.missing c facts).map inclusionIssue) n := by
  rw [repair]
  split
  · contradiction
  · rfl

theorem settled_of_length_privateOutside_lt (h : (privateOutside c s).length < n) :
    (s.repair c facts issues n).settled = true := by
  induction n generalizing s issues with
  | zero => exact absurd h (Nat.not_lt_zero _)
  | succ n ih =>
    by_cases hmissing : s.missing c facts = []
    case pos => rw [repair_succ_of_nil hmissing]
    case neg =>
      rw [repair_succ_of_ne_nil hmissing]
      exact ih (Nat.lt_of_lt_of_le (length_privateOutside_round hmissing) (Nat.le_of_lt_succ h))

-- Rounds that are left when nothing is missing are not used.
theorem repair_eq_of_settled (h : (s.repair c facts issues n).settled = true) (hle : n ≤ m) :
    s.repair c facts issues m = s.repair c facts issues n := by
  induction n generalizing s issues m with
  | zero => cases h
  | succ n ih =>
    obtain ⟨m, rfl⟩ := Nat.exists_eq_add_one_of_ne_zero (Nat.ne_zero_of_lt hle)
    by_cases hmissing : s.missing c facts = []
    case pos => rw [repair_succ_of_nil hmissing, repair_succ_of_nil hmissing]
    case neg =>
      rw [repair_succ_of_ne_nil hmissing] at h ⊢
      rw [repair_succ_of_ne_nil hmissing]
      exact ih h (Nat.le_of_succ_le_succ hle)

end Selection

namespace Verdict

open Selection

variable {c : ClassModel} {facts : Facts} {candidate : Candidate} {n m : Nat} {i : Issue}

-- One of the issues is that the selection was not completed.
def ReportsCap (plan : Plan) : Prop := ∃ i ∈ plan.issues, i.kind = .repairCapExceeded

-- The selection of a candidate after at most so many rounds.
def repaired (c : ClassModel) (facts : Facts) (candidate : Candidate) (n : Nat) : Repaired :=
  (ofRequest candidate.methods).repair c facts [] n

theorem repaired_eq_of_settled (h : (repaired c facts candidate n).settled = true) (hle : n ≤ m) :
    repaired c facts candidate m = repaired c facts candidate n := by
  rw [repaired] at h
  rw [repaired, repaired, repair_eq_of_settled h hle]

theorem mem_issues_planWith {fields methods : List String} {blocking informing : List Issue}
    (h : i ∈ (planWith fields methods blocking informing).issues) :
    i ∈ blocking ∨ i ∈ informing := by
  cases blocking with
  | nil => exact .inr h
  | cons j blocking => exact .inl h

theorem kind_of_mem_reports {added statics : List (String × String)} {known : SignatureSet}
    {methods : List Method} {fields : List String}
    (h : i ∈ reports c facts added statics known methods fields) :
    i.kind ≠ .repairCapExceeded := by
  rw [reports, List.mem_append, List.mem_append] at h
  intro hcap
  obtain h | h | h := h
  · obtain ⟨_, -, rfl⟩ := List.mem_map.mp h
    cases hcap
  · obtain ⟨_, -, rfl⟩ := List.mem_map.mp h
    cases hcap
  · obtain hkind | hkind | hkind | hkind := kind_of_mem_remarks h
    all_goals
      rw [hkind] at hcap
      cases hcap

theorem not_reportsCap_of_settled (h : (repaired c facts candidate n).settled = true) :
    ¬ReportsCap (decide c facts n candidate) := by
  obtain ⟨added, s, -, hplan⟩ := decide_of_settled h
  rintro ⟨i, hi, hkind⟩
  rw [hplan, planOf] at hi
  cases mem_issues_planWith hi with
  | inl hblocker => rcases kind_of_mem_blockers hblocker with hk | hk <;> simp [hk] at hkind
  | inr hreport => exact kind_of_mem_reports hreport hkind

theorem capIssue_mem_of_not_settled (h : (repaired c facts candidate n).settled = false) :
    ∃ issues, decide c facts n candidate = .rejected issues ∧
      capIssue candidate.newClass n ∈ issues := by
  have hblocking : (capIssue candidate.newClass n).isBlocking = true := rfl
  rw [repaired] at h
  rw [decide]
  simp only [h]
  rw [if_pos]
  · refine ⟨_, rfl, List.mem_filter.mpr ⟨?_, hblocking⟩⟩
    simp
  · exact List.any_eq_true.mpr ⟨_, by simp, hblocking⟩

theorem reportsCap_iff :
    ReportsCap (decide c facts n candidate) ↔ (repaired c facts candidate n).settled = false := by
  constructor
  case mp =>
    intro h
    by_contra hsettled
    exact not_reportsCap_of_settled (by simpa using hsettled) h
  case mpr =>
    intro h
    obtain ⟨issues, hplan, hmem⟩ := capIssue_mem_of_not_settled h
    rw [hplan]
    exact ⟨_, hmem, rfl⟩

theorem decide_congr (h : (repaired c facts candidate n).settled = true)
    (heq : repaired c facts candidate m = repaired c facts candidate n) :
    decide c facts m candidate = decide c facts n candidate := by
  simp only [repaired] at h heq
  rw [decide, decide, heq]
  simp only [h, if_true]

-- 1. A limit above the number of private methods is not reached.
-- 2. Above a limit that is not reached the plan is the same.
-- 3. Below a limit that is reached every limit is, and the candidate is rejected.
theorem repairCap_harmless (c : ClassModel) (facts : Facts) (candidate : Candidate) :
    (∀ n, (privateMethods c).length + 1 ≤ n → ¬ReportsCap (decide c facts n candidate)) ∧
    (∀ n m, n ≤ m → ¬ReportsCap (decide c facts n candidate) →
      decide c facts m candidate = decide c facts n candidate) ∧
    ∀ n m, m ≤ n → ReportsCap (decide c facts n candidate) →
      ReportsCap (decide c facts m candidate) ∧
        ∃ issues, decide c facts m candidate = .rejected issues := by
  have hstable : ∀ n m, n ≤ m → ¬ReportsCap (decide c facts n candidate) →
      (repaired c facts candidate n).settled = true ∧
        repaired c facts candidate m = repaired c facts candidate n := by
    intro n m hle hcap
    rw [reportsCap_iff, Bool.not_eq_false] at hcap
    exact ⟨hcap, repaired_eq_of_settled hcap hle⟩
  refine ⟨?_, ?_, ?_⟩
  · intro n hn
    refine not_reportsCap_of_settled (settled_of_length_privateOutside_lt ?_)
    exact Nat.lt_of_le_of_lt (List.length_filter_le _ _) hn
  · intro n m hle hcap
    obtain ⟨hsettled, heq⟩ := hstable n m hle hcap
    exact decide_congr hsettled heq
  · intro n m hle hcap
    have hreports : ReportsCap (decide c facts m candidate) := by
      by_contra hnot
      obtain ⟨hsettled, heq⟩ := hstable m n hle hnot
      exact not_reportsCap_of_settled (heq ▸ hsettled) hcap
    obtain ⟨issues, hplan, -⟩ := capIssue_mem_of_not_settled (reportsCap_iff.mp hreports)
    exact ⟨hreports, issues, hplan⟩

end Verdict

end ClassSplit
