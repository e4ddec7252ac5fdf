import ClassSplit.Proofs.Java.Grammar.Combinator
import ClassSplit.Proofs.Java.Phrase

/-!
Running recognizers. What a recognizer makes of a list of tokens follows from what its parts make of
it; `Recognizer.Reads` says how the nodes that it gives are read, and leaves out the nodes.
-/

namespace ClassSplit.Java.Grammar.Recognizer

variable {p q : Recognizer} {kind : Kind} {r : Role} {ns : List Node} {ts mid rest : List Token}
  {t : Token} {ps qs : List Phrase} {phrase : Phrase} {word : String} {words : List String}

section Run

@[simp] theorem run_done (ts : List Token) : done.run ts = some ([], ts) := rfl

@[simp] theorem run_fail (ts : List Token) : fail.run ts = none := rfl

@[simp] theorem run_given (ns : List Node) (ts : List Token) :
    (given ns).run ts = some (ns, ts) := rfl

@[simp] theorem run_append (p q : Recognizer) (ts : List Token) :
    (p ++ q).run ts = (p.run ts).bind fun f => (q.run f.2).map fun f' => (f.1 ++ f'.1, f'.2) := by
  change (andThen p q).run ts = _
  simp only [andThen]
  cases p.run ts with
  | none => rfl
  | some f => cases h : q.run f.2 <;> simp [h]

@[simp] theorem run_orElse (p q : Recognizer) (ts : List Token) :
    (p <|> q).run ts = (p.run ts).or (q.run ts) := by
  change (either p fun _ => q).run ts = _
  simp only [either]
  cases p.run ts <;> rfl

theorem run_append_of_none (h : p.run ts = none) : (p ++ q).run ts = none := by
  rw [run_append, h, Option.bind_none]

theorem run_append_of_some (h : p.run ts = some (ns, mid)) :
    (p ++ q).run ts = (q.run mid).map fun f => (ns ++ f.1, f.2) := by
  rw [run_append, h, Option.bind_some]

-- The test of one part of a sequence decides, wherever the part stands.
theorem run_append_assoc (p q s : Recognizer) (ts : List Token) :
    (p ++ q ++ s).run ts = (p ++ (q ++ s)).run ts := by
  simp only [run_append]
  cases p.run ts with
  | none => rfl
  | some f =>
    simp only [Option.bind_some]
    cases q.run f.2 with
    | none => rfl
    | some f' =>
      simp only [Option.map_some, Option.bind_some, Option.map_map]
      cases s.run f'.2 <;> simp

-- Whatever is tested in front of a recognizer, it fails where the recognizer does.
theorem run_notAhead_append_of_none (h : q.run ts = none) : (notAhead p ++ q).run ts = none := by
  rw [run_append, notAhead]
  cases hp : p.run ts <;> simp [hp, h]

@[simp] theorem run_role (r : Role) (p : Recognizer) (ts : List Token) :
    (role r p).run ts = (p.run ts).map fun f => (f.1.map (·.withRole r), f.2) := rfl

@[simp] theorem run_ite (c : Prop) [Decidable c] (p q : Recognizer) (ts : List Token) :
    (if c then p else q).run ts = if c then p.run ts else q.run ts :=
  apply_ite (·.run ts) c p q

@[simp] theorem run_node_of_none (h : p.run ts = none) : (node kind p).run ts = none := by
  simp only [node, h]

@[simp] theorem run_bind_of_none {f : List Node → Recognizer} (h : p.run ts = none) :
    (bind p f).run ts = none := by
  simp only [bind, h]

theorem run_bind_of_some {f : List Node → Recognizer} (h : p.run ts = some (ns, mid)) :
    (bind p f).run ts = (f ns).run mid := by
  simp only [bind, h]

@[simp] theorem run_suchThat_of_none {test : List Node → Bool} (h : p.run ts = none) :
    (suchThat p test).run ts = none :=
  run_bind_of_none h

@[simp] theorem run_optional_of_none (h : p.run ts = none) : (optional p).run ts = some ([], ts) := by
  rw [optional, run_orElse, h, Option.none_or, run_done]

theorem run_many_of_none (h : p.run ts = none) : (many p).run ts = some ([], ts) := by
  cases ts with
  | nil => rfl
  | cons t ts => simp only [many, List.length_cons, many.go, h]

@[simp] theorem run_many1_of_none (h : p.run ts = none) : (many1 p).run ts = none :=
  run_append_of_none h

@[simp] theorem run_extend_of_none {step : List Node → Recognizer} (h : p.run ts = none) :
    (extend p step).run ts = none := by
  simp only [extend, h]

theorem run_extend_of_some {step : List Node → Recognizer} (h : p.run ts = some (ns, mid)) :
    (extend p step).run ts = extend.go step mid.length ns mid := by
  simp only [extend, h]

theorem extend_go_of_none {step : List Node → Recognizer} (h : (step ns).run ts = none) (n : Nat) :
    extend.go step n ns ts = some (ns, ts) := by
  cases n with
  | zero => rfl
  | succ n => rw [extend.go, h]

-- More turns than there are tokens change nothing.
theorem extend_go_eq {step : List Node → Recognizer} {n m : Nat} (hn : ts.length ≤ n)
    (hm : ts.length ≤ m) : extend.go step n ns ts = extend.go step m ns ts := by
  induction n generalizing m ns ts with
  | zero =>
    obtain rfl := List.length_eq_zero_iff.mp (Nat.le_zero.mp hn)
    cases m with
    | zero => rfl
    | succ m =>
      rw [extend.go, extend.go]
      cases (step ns).run [] with
      | none => rfl
      | some f => exact (if_neg (Nat.not_lt_zero _)).symm
  | succ n ih =>
    cases m with
    | zero =>
      obtain rfl := List.length_eq_zero_iff.mp (Nat.le_zero.mp hm)
      rw [extend.go, extend.go]
      cases (step ns).run [] with
      | none => rfl
      | some f => exact if_neg (Nat.not_lt_zero _)
    | succ m =>
      rw [extend.go, extend.go]
      cases (step ns).run ts with
      | none => rfl
      | some f =>
        by_cases hlt : f.2.length < ts.length
        case neg => simp only [if_neg hlt]
        case pos =>
          simp only [if_pos hlt]
          exact ih (by omega) (by omega)

theorem extend_go_of_some {step : List Node → Recognizer} {ms : List Node}
    (h : (step ns).run ts = some (ms, rest)) (hlt : rest.length < ts.length) :
    extend.go step ts.length ns ts = extend.go step rest.length ms rest := by
  cases hlength : ts.length with
  | zero => omega
  | succ n =>
    rw [extend.go, h]
    simp only [if_pos hlt]
    exact extend_go_eq (by omega) (Nat.le_refl _)

theorem run_extend_stop {step : List Node → Recognizer} (h : p.run ts = some (ns, mid))
    (hstep : (step ns).run mid = none) : (extend p step).run ts = some (ns, mid) := by
  rw [run_extend_of_some h, extend_go_of_none hstep]

theorem run_extend_once {step : List Node → Recognizer} {ms : List Node}
    (h : p.run ts = some (ns, mid)) (hstep : (step ns).run mid = some (ms, rest))
    (hlt : rest.length < mid.length) (hstop : (step ms).run rest = none) :
    (extend p step).run ts = some (ms, rest) := by
  rw [run_extend_of_some h, extend_go_of_some hstep hlt, extend_go_of_none hstop]

theorem many_go_eq {n m : Nat} (hn : ts.length ≤ n) (hm : ts.length ≤ m) :
    many.go p n ts = many.go p m ts := by
  induction n generalizing m ts with
  | zero =>
    obtain rfl := List.length_eq_zero_iff.mp (Nat.le_zero.mp hn)
    cases m with
    | zero => rfl
    | succ m =>
      rw [many.go, many.go]
      cases p.run [] with
      | none => rfl
      | some f => exact (if_neg (Nat.not_lt_zero _)).symm
  | succ n ih =>
    cases m with
    | zero =>
      obtain rfl := List.length_eq_zero_iff.mp (Nat.le_zero.mp hm)
      rw [many.go, many.go]
      cases p.run [] with
      | none => rfl
      | some f => exact if_neg (Nat.not_lt_zero _)
    | succ m =>
      rw [many.go, many.go]
      cases p.run ts with
      | none => rfl
      | some f =>
        by_cases hlt : f.2.length < ts.length
        case neg => simp only [if_neg hlt]
        case pos =>
          simp only [if_pos hlt]
          rw [ih (by omega) (by omega : f.2.length ≤ m)]

theorem run_many_of_some (h : p.run ts = some (ns, mid)) (hlt : mid.length < ts.length) :
    (many p).run ts = ((many p).run mid).map fun f => (ns ++ f.1, f.2) := by
  have hmany : (many p).run ts = many.go p ts.length ts := rfl
  have hmid : (many p).run mid = many.go p mid.length mid := rfl
  rw [hmany, hmid]
  cases hlength : ts.length with
  | zero => omega
  | succ n =>
    rw [many.go, h]
    simp only [if_pos hlt]
    rw [many_go_eq (by omega) (Nat.le_refl _)]

@[simp] theorem run_leaf (test : Token → Bool) (kind : Token → Kind) (t : Token)
    (ts : List Token) : (leaf test kind).run (t :: ts) =
      if test t then some ([.leaf (kind t) none t.span t.text], ts) else none := rfl

@[simp] theorem run_mark (word : String) (t : Token) (ts : List Token) :
    (mark word).run (t :: ts) =
      if t.kind = .token word then some ([.leaf t.kind none t.span t.text], ts) else none := by
  simp [mark]

@[simp] theorem run_keyword (word : String) (t : Token) (ts : List Token) :
    (keyword word).run (t :: ts) =
      if t.kind = .identifier ∧ t.text = word then some ([.leaf (.token word) none t.span t.text], ts)
      else none := by
  simp [keyword]

@[simp] theorem run_keywordAs (kind : Kind) (word : String) (t : Token) (ts : List Token) :
    (keywordAs kind word).run (t :: ts) =
      if t.kind = .identifier ∧ t.text = word then some ([.leaf kind none t.span t.text], ts)
      else none := by
  simp [keywordAs]

@[simp] theorem run_oneOfKeywords (words : List String) (t : Token) (ts : List Token) :
    (oneOfKeywords words).run (t :: ts) =
      if t.kind = .identifier ∧ t.text ∈ words then
        some ([.leaf (.token t.text) none t.span t.text], ts)
      else none := by
  simp [oneOfKeywords]

@[simp] theorem run_wordAs (kind : Kind) (words : List String) (t : Token) (ts : List Token) :
    (wordAs kind words).run (t :: ts) =
      if t.kind = .identifier ∧ t.text ∉ words then some ([.leaf kind none t.span t.text], ts)
      else none := by
  simp [wordAs]

@[simp] theorem run_identifier (words : List String) (t : Token) (ts : List Token) :
    (identifier words).run (t :: ts) =
      if t.kind = .identifier ∧ t.text ∉ words then
        some ([.leaf .identifier none t.span t.text], ts)
      else none :=
  run_wordAs .identifier words t ts

end Run

-- How the nodes are read that a recognizer gives.
def Reads (p : Recognizer) (ts : List Token) (ps : List Phrase) (rest : List Token) : Prop :=
  ∃ ns, p.run ts = some (ns, rest) ∧ Node.phrases? ns = some ps

namespace Reads

theorem nil (h : p.run ts = some ([], rest)) : Reads p ts [] rest := ⟨[], h, rfl⟩

theorem append (hp : Reads p ts ps mid) (hq : Reads q mid qs rest) :
    Reads (p ++ q) ts (ps ++ qs) rest := by
  obtain ⟨ns, hns, hps⟩ := hp
  obtain ⟨ms, hms, hqs⟩ := hq
  refine ⟨ns ++ ms, by rw [run_append_of_some hns, hms, Option.map_some], ?_⟩
  rw [Node.phrases?_append, hps, hqs]
  rfl

-- A part that takes nothing.
theorem appendNothing (hp : Reads p ts ps mid) (hq : q.run mid = some ([], rest)) :
    Reads (p ++ q) ts ps rest := by
  have h := hp.append (.nil hq)
  rwa [List.append_nil] at h

theorem left (h : Reads p ts ps rest) : Reads (p <|> q) ts ps rest := by
  obtain ⟨ns, hns, hps⟩ := h
  exact ⟨ns, by rw [run_orElse, hns, Option.some_or], hps⟩

theorem right (hp : p.run ts = none) (h : Reads q ts ps rest) : Reads (p <|> q) ts ps rest := by
  obtain ⟨ns, hns, hps⟩ := h
  exact ⟨ns, by rw [run_orElse, hp, Option.none_or, hns], hps⟩

theorem role (h : Reads p ts ps rest) (r : Role) : Reads (role r p) ts ps rest := by
  obtain ⟨ns, hns, hps⟩ := h
  exact ⟨ns.map (·.withRole r), by rw [run_role, hns]; rfl, by rw [Node.phrases?_map_withRole, hps]⟩

theorem bind {f : List Node → Recognizer} (hp : p.run ts = some (ns, mid))
    (hf : Reads (f ns) mid ps rest) : Reads (bind p f) ts ps rest := by
  obtain ⟨ms, hms, hps⟩ := hf
  exact ⟨ms, by rw [run_bind_of_some hp, hms], hps⟩

theorem given (h : Node.phrases? ns = some ps) (ts : List Token) : Reads (given ns) ts ps ts :=
  ⟨ns, rfl, h⟩

-- A construct is no comment.
theorem node (h : Reads p ts ps rest) (hphrase : Phrase.ofChildren? kind ps = some phrase)
    (hne : ps ≠ []) : Reads (node kind p) ts [phrase] rest := by
  obtain ⟨ns, hns, hps⟩ := h
  cases ns with
  | nil => exact absurd (Option.some.inj hps).symm hne
  | cons n ns =>
    obtain ⟨last, hlast⟩ := Option.isSome_iff_exists.mp
      (List.getLast?_isSome.mpr (List.cons_ne_nil n ns))
    refine ⟨[.branch kind none ⟨n.span.start, last.span.stop⟩ (n :: ns)], ?_, ?_⟩
    · simp only [Recognizer.node, hns, List.head?_cons, hlast]
    · exact Node.phrases?_singleton (by rw [Node.phrase?, hps, Option.bind_some, hphrase])

theorem leaf {test : Token → Bool} {kind : Token → Kind} (h : test t = true)
    (hphrase : Phrase.ofToken? (kind t) t.text = some phrase) (ts : List Token) :
    Reads (leaf test kind) (t :: ts) [phrase] ts := by
  exact ⟨_, by rw [run_leaf, if_pos h], Node.phrases?_singleton (by rw [Node.phrase?, hphrase])⟩

theorem mark (h : t.kind = .token word) (ts : List Token) :
    Reads (mark word) (t :: ts) [.mark word] ts := by
  refine leaf (by simp [h]) ?_ ts
  rw [h]
  rfl

theorem keyword (h : t.kind = .identifier) (htext : t.text = word) (ts : List Token) :
    Reads (keyword word) (t :: ts) [.mark word] ts :=
  leaf (by simp [h, htext]) rfl ts

theorem identifier (words : List String) (h : t.kind = .identifier) (hname : isName t.text = true)
    (hwords : t.text ∉ words) (ts : List Token) :
    Reads (identifier words) (t :: ts) [.expression (.read (.name t.text))] ts := by
  refine leaf (by simpa [h] using hwords) ?_ ts
  rw [Phrase.ofToken?, if_pos hname]

end Reads

end ClassSplit.Java.Grammar.Recognizer
