import ClassSplit.Proofs.Delegation.Simulation
import ClassSplit.Proofs.Java.Grammar.Body
import ClassSplit.Proofs.Java.Spacing

/-!
The text of an accessor is read as what its calls do. Main statements:
`AccessorForm.readBlock?_statement` and `Routing.Declares.servedBy`.
-/

namespace ClassSplit

open Java

section Line

variable {cs after : List Char} {body : Procedure.Body} {x : String} {isIncrement : Bool}

-- A text that is read as the one line of a block.
structure SpeltBody (cs : List Char) (body : Procedure.Body) : Prop where
  scans : ∀ after, ∃ fs, Scans cs fs after ∧
    ∀ offset, Grammar.SpellsBody (tokensFrom offset fs) body
  first : ∃ c tail, cs = c :: tail ∧ isGap c = false

theorem scans_stepSign (isIncrement : Bool) (h : ∀ c ∈ after.head?, c ∉ gluing) :
    Scans (Grammar.stepSign isIncrement).toList
      [⟨.token (.token (Grammar.stepSign isIncrement)), (Grammar.stepSign isIncrement).toList⟩]
      after := by
  have hmem : Grammar.stepSign isIncrement ∈ Java.signs ∧ Grammar.stepSign isIncrement ≠ "/" ∧
      Grammar.stepSign isIncrement ≠ "." := by
    cases isIncrement
    all_goals decide
  exact scans_sign hmem.left h (absurd · hmem.right.left) (absurd · hmem.right.right)

theorem speltBody_return (hcs : ∃ c tail, cs = c :: tail ∧ isGap c = false)
    (h : ∀ after, ∃ fs, Scans cs fs after ∧ ∀ offset (giving : Token),
      giving.kind = .identifier → giving.text = "return" →
        Grammar.SpellsBody (giving :: tokensFrom offset fs) body) :
    SpeltBody ("return ".toList ++ cs) body := by
  refine ⟨fun after => ?_, 'r', _, rfl, rfl⟩
  obtain ⟨fs, hfs, hspells⟩ := h after
  obtain ⟨c, tail, rfl, hc⟩ := hcs
  have hsolid : ∀ d ∈ (c :: tail ++ after).head?, isGap d = false := by
    intro d hd
    obtain rfl := Option.some.inj hd
    exact hc
  obtain ⟨gs, hgs, hnone⟩ := Blank.space.scans hsolid
  have hword : SpellsIdentifier "return".toList :=
    ⟨_, _, rfl, by decide +kernel, List.all_eq_true.mp (by decide +kernel)⟩
  have hall := (scans_word (c := ' ') hword (by decide +kernel) (c :: tail ++ after)).append
    (hgs.append hfs)
  refine ⟨_, by simpa using hall, fun offset => ?_⟩
  simp only [List.nil_append, tokensFrom_token, tokensFrom_append, hnone]
  exact hspells _ _ rfl rfl

variable (hx : Nameable x)

include hx

theorem Java.Nameable.first (cs : List Char) :
    ∃ c tail, x.toList ++ cs = c :: tail ∧ isGap c = false := by
  obtain ⟨c, v, hword, hc, -⟩ := hx.isWord
  exact ⟨c, v ++ cs, by rw [hword]; rfl, isGap_of_isIdentifierStart hc⟩

theorem speltBody_name :
    SpeltBody ("return ".toList ++ (x.toList ++ [';'])) (.giveBack (.read (.name x))) := by
  refine speltBody_return (hx.first _) fun after => ?_
  have hall := (scans_word hx.isWord (by decide +kernel) after).append (scans_semicolon after)
  refine ⟨_, hall, fun offset giving hgiving hword => ?_⟩
  simp only [List.cons_append, List.nil_append, tokensFrom_token, tokensFrom_nil,
    String.ofList_toList]
  exact .name hgiving hword ⟨rfl, hx.isName⟩ rfl

theorem speltBody_front (isIncrement : Bool) :
    SpeltBody ("return ".toList ++ ((Grammar.stepSign isIncrement).toList ++ (x.toList ++ [';'])))
      (.giveBack (.step isIncrement true (.name x))) := by
  have hfirst : ∃ c tail, (Grammar.stepSign isIncrement).toList ++ (x.toList ++ [';']) = c :: tail ∧
      isGap c = false := by
    cases isIncrement
    all_goals exact ⟨_, _, rfl, rfl⟩
  refine speltBody_return hfirst fun after => ?_
  have hsign : Grammar.stepSign isIncrement ∈ Java.signs ∧ Grammar.stepSign isIncrement ≠ "/" := by
    cases isIncrement
    all_goals decide
  have hname := (scans_word hx.isWord (by decide +kernel) after).append (scans_semicolon after)
  have hall := Scans.append
    (by simpa using scans_sign_word hsign.left hsign.right hx.isWord (';' :: after)) hname
  refine ⟨_, by simpa using hall, fun offset giving hgiving hword => ?_⟩
  simp only [tokensFrom_token, tokensFrom_nil, String.ofList_toList]
  exact .front hgiving hword rfl ⟨rfl, hx.isName⟩ rfl

theorem speltBody_back (isIncrement : Bool) :
    SpeltBody ("return ".toList ++ (x.toList ++ ((Grammar.stepSign isIncrement).toList ++ [';'])))
      (.giveBack (.step isIncrement false (.name x))) := by
  refine speltBody_return (hx.first _) fun after => ?_
  have hplain : ∀ c ∈ ([';'] ++ after).head?, c ∉ gluing := by
    intro c hc
    obtain rfl := Option.some.inj hc
    decide
  have hname : Scans x.toList [⟨.token .identifier, x.toList⟩]
      ((Grammar.stepSign isIncrement).toList ++ ';' :: after) := by
    cases isIncrement
    all_goals exact scans_word hx.isWord (by decide +kernel) _
  have hback := (scans_stepSign isIncrement hplain).append (scans_semicolon after)
  have hall := Scans.append (by simpa using hname) hback
  refine ⟨_, by simpa using hall, fun offset giving hgiving hword => ?_⟩
  simp only [tokensFrom_token, tokensFrom_nil, String.ofList_toList]
  exact .back hgiving hword ⟨rfl, hx.isName⟩ rfl rfl

theorem speltBody_assign :
    SpeltBody ("this.".toList ++ (x.toList ++ (" = ".toList ++ (x.toList ++ [';']))))
      (.run (.assign (.own x) (.read (.name x)))) := by
  refine ⟨fun after => ?_, 't', _, rfl, rfl⟩
  have hthis : SpellsIdentifier "this".toList :=
    ⟨_, _, rfl, by decide +kernel, List.all_eq_true.mp (by decide +kernel)⟩
  have hequals : Scans ['='] [⟨.token (.token "="), ['=']⟩]
      ([' '] ++ (x.toList ++ [';']) ++ after) := by
    refine scans_sign (show "=" ∈ Java.signs by decide) ?_ (absurd · (by decide))
      (absurd · (by decide))
    intro c hc
    obtain rfl := Option.some.inj hc
    decide
  have hsolid : ∀ c ∈ (['='] ++ ([' '] ++ (x.toList ++ [';'])) ++ after).head?,
      isGap c = false := by
    intro c hc
    obtain rfl := Option.some.inj hc
    rfl
  have hsolid' : ∀ c ∈ (x.toList ++ [';'] ++ after).head?, isGap c = false := by
    intro d hd
    obtain ⟨c, tail, heq, hc⟩ := hx.first ([';'] ++ after)
    rw [List.append_assoc, heq] at hd
    obtain rfl := Option.some.inj hd
    exact hc
  obtain ⟨gs, hgs, hnone⟩ := Blank.space.scans hsolid
  obtain ⟨gs', hgs', hnone'⟩ := Blank.space.scans hsolid'
  have hname := (scans_word hx.isWord (by decide +kernel) after).append (scans_semicolon after)
  have hfield := (scans_word (c := ' ') hx.isWord (by decide +kernel) _).append
    (hgs.append (hequals.append (hgs'.append hname)))
  have hdot := scans_sign_word (show "." ∈ Java.signs by decide) (by decide) hx.isWord
    ([' '] ++ (['='] ++ ([' '] ++ (x.toList ++ [';']))) ++ after)
  have hall := (scans_word (c := '.') hthis (by decide +kernel) _).append
    (Scans.append (by simpa using hdot) hfield)
  refine ⟨_, by simpa using hall, fun offset => ?_⟩
  simp only [List.nil_append, tokensFrom_token, tokensFrom_append, hnone, hnone', tokensFrom_nil,
    String.ofList_toList]
  exact .assign rfl rfl rfl ⟨rfl, hx.isName⟩ rfl ⟨rfl, hx.isName⟩ rfl

end Line

namespace AccessorForm

variable {f : Field} {indent : String}

theorem speltBody_statement (form : AccessorForm) (hf : Nameable f.name) (t : Integral)
    (name : String) :
    SpeltBody (form.statement f).toList (form.procedure t f.name name).body := by
  cases form
  case getter => simpa [statement, procedure] using speltBody_name hf
  case setter => simpa [statement, procedure] using speltBody_assign hf
  case increment =>
    simpa [statement, procedure, Grammar.stepSign] using speltBody_front hf true
  case postIncrement =>
    simpa [statement, procedure, Grammar.stepSign] using speltBody_back hf true
  case decrement =>
    simpa [statement, procedure, Grammar.stepSign] using speltBody_front hf false
  case postDecrement =>
    simpa [statement, procedure, Grammar.stepSign] using speltBody_back hf false

-- The block of an accessor, as its declaration has it.
theorem readBlock?_statement (form : AccessorForm) (hf : Nameable f.name)
    (hindent : ∀ c ∈ indent.toList, isGap c = true) (t : Integral) (name : String) :
    readBlock? ("\x7b\n" ++ indent ++ form.statement f ++ "\n\x7d").toList =
      some [(form.procedure t f.name name).body] := by
  obtain ⟨hscans, c, tail, hcs, hc⟩ := form.speltBody_statement hf t name
  obtain ⟨fs, hfs, hspells⟩ := hscans ['\n', '\x7d']
  have hfront : Blank ('\n' :: indent.toList) := .gap (List.forall_mem_cons.mpr ⟨rfl, hindent⟩)
  have hback : Blank ['\n'] := .gap (List.all_eq_true.mp (by decide))
  have hsolid : ∀ d ∈ ((form.statement f).toList ++ ['\n', '\x7d']).head?, isGap d = false := by
    intro d hd
    rw [hcs] at hd
    obtain rfl := Option.some.inj hd
    exact hc
  have hsolid' : ∀ d ∈ ['\x7d'].head?, isGap d = false := by
    intro d hd
    obtain rfl := Option.some.inj hd
    rfl
  obtain ⟨gs, hgs, hnone⟩ := hfront.scans hsolid
  obtain ⟨gs', hgs', hnone'⟩ := hback.scans hsolid'
  have hlast := Scans.append (by simpa using hfs) (hgs'.append (scans_brace []))
  have hall := (scans_bracket (show "\x7b" ∈ Java.brackets by decide) _).append
    (Scans.append (by simpa using hgs) hlast)
  have htext : ("\x7b\n" ++ indent ++ form.statement f ++ "\n\x7d").toList =
      '\x7b' :: ('\n' :: indent.toList ++ ((form.statement f).toList ++ (['\n'] ++ ['\x7d']))) := by
    simp
  rw [htext]
  refine readBlock?_of_reads (by simpa using hall) fun d hd => ?_
  simp only [List.nil_append, tokensFrom_token, tokensFrom_append, hnone, hnone', tokensFrom_nil]
    at hd ⊢
  simp only [List.length_cons, List.length_append, List.length_nil] at hd
  exact (hspells _).reads_block rfl rfl rfl (by omega) []

/-- A method that is declared as an accessor of a field: its text is read as what it does. -/
structure Declares (form : AccessorForm) (t : Integral) (f : Field) (name indent : String)
    (m : Procedure) : Prop where
  eq_with_body : m = { form.procedure t f.name name with body := m.body }
  reads : readBlock? ("\x7b\n" ++ indent ++ form.statement f ++ "\n\x7d").toList =
    some [m.body]

theorem Declares.eq_procedure {form : AccessorForm} {t : Integral} {name : String} {m : Procedure}
    (h : form.Declares t f name indent m) (hf : Nameable f.name)
    (hindent : ∀ c ∈ indent.toList, isGap c = true) : m = form.procedure t f.name name := by
  have hbody : [m.body] = [(form.procedure t f.name name).body] :=
    Option.some.inj (h.reads.symm.trans (form.readBlock?_statement hf hindent t name))
  rw [h.eq_with_body, (List.cons.inj hbody).left]

end AccessorForm

namespace Routing

variable {R : Routing} {methods : List Procedure} {indent : String}

/-- The methods of the new class are declared as the accessors of the fields. -/
structure Declares (R : Routing) (methods : List Procedure) (indent : String) : Prop where
  blank : ∀ c ∈ indent.toList, isGap c = true
  nameable : ∀ x r, R.route x = some r → Nameable x
  exists_method : ∀ x r, R.route x = some r → ∀ form : AccessorForm, ∃ m f,
    methods.find? (·.name == r.nameOf form) = some m ∧ f.name = x ∧
      form.Declares r.type f (r.nameOf form) indent m

theorem Declares.servedBy (h : R.Declares methods indent) : R.ServedBy methods := by
  intro x r hr form
  obtain ⟨m, f, hfind, rfl, hm⟩ := h.exists_method x r hr form
  rw [hfind, hm.eq_procedure (h.nameable f.name r hr) h.blank]

end Routing

end ClassSplit
