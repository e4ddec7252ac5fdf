import ClassSplit.Proofs.Extraction.Members
import ClassSplit.Proofs.Extraction.Steps
import ClassSplit.Proofs.Model.Signature
import ClassSplit.Proofs.NewClass.Accessor
import ClassSplit.Proofs.NewClass.Method

/-!
The headings of the methods of a new class. No accessor has the name and the parameters of another
one or of a moved method, and no two moved methods do, as far as headings are compared as they are
written. A variable number of arguments is written with dots and an array with brackets, so that a
setter can stand beside a moved method that takes what it takes. Main statement:
`apart_of_extract`.
-/

namespace ClassSplit

open Java

theorem Method.signature_heading {source : String} {wanted : Option String} {s : JavaSource}
    {m : Method} (h : JavaSource.parse source wanted = .ok s) (hm : m ∈ s.model.methods) :
    m.signature = m.heading.signature := by
  obtain ⟨body, hbody, -⟩ := JavaSource.exists_primaryBody_of_parse h
  obtain ⟨member, -, -, rfl⟩ := hbody.methods m hm
  simp [JavaSource.readMethod, heading, Heading.signature, Heading.writtenType, Function.comp_def]

namespace Extraction

variable {settings : Settings} {r : Request} {facts : Option Facts} {source : String}
  {s : JavaSource} {names signatures : List String} {fields : List Field} {methods : List Method}
  {issues : List Issue} {o : Outcome}

-- The methods that the new class declares: accessors in front of the methods that move.
def headingsOf (s : JavaSource) (fields : List Field) (methods : List Method) : List Heading :=
  (MovedField.synthesized s.text methods fields).map (·.heading) ++ methods.map (·.heading)

theorem apart_headingsOf {wanted : Option String} (hparsed : JavaSource.parse source wanted = .ok s)
    (hfields : resolveFields s.model names = .ok fields)
    (hmethods : resolveMethods s.model signatures = .ok methods) :
    (headingsOf s fields methods).Pairwise Heading.Apart := by
  have hwords (f : Field) (hf : f ∈ fields) : IsWord f.name :=
    have hmem := (name_of_field? (field?_of_resolveFields hfields hf)).right
    JavaSource.isPlain_of_mem_fields hparsed hmem
  have hsignature (m : Method) (hm : m ∈ methods) : m.signature = m.heading.signature :=
    m.signature_heading hparsed (mem_methods_of_resolveMethods hmethods hm)
  refine List.pairwise_append.mpr ⟨?_, ?_, ?_⟩
  · have hnames := MovedField.nodup_name_synthesized s.text methods hwords
    refine List.pairwise_map.mpr ((List.pairwise_map.mp hnames).imp ?_)
    intro a b hne hsame
    exact absurd hsame.left hne
  · have hnodup := nodup_signature_of_resolveMethods hmethods
    refine List.pairwise_map.mpr ((List.pairwise_map.mp hnodup).imp_of_mem ?_)
    intro m n hm hn hne hsame hdotted
    have heq := Heading.eq_of_same hsame hdotted
    rw [hsignature m hm, hsignature n hn, heq] at hne
    exact hne rfl
  · intro g hg h hh hsame hdotted
    obtain ⟨a, ha, rfl⟩ := List.mem_map.mp hg
    obtain ⟨m, hm, rfl⟩ := List.mem_map.mp hh
    have hne := MovedField.signature_ne_of_mem_synthesized hwords ha hm
    rw [hsignature m hm, Heading.eq_of_same hsame hdotted] at hne
    exact hne rfl

theorem apart_of_extract {result : Extracted} (h : extract settings r facts source = .ok o)
    (hresult : o.result = some result) :
    ∃ s names signatures fields methods moved, parseFor r source = .ok s ∧
      Chosen settings r facts s names signatures o.issues fields methods ∧
        result.newSource = (newClassOf settings r s fields methods moved).source ∧
          (movedFieldsOf settings s fields methods).flatMap (·.members) =
            (MovedField.synthesized s.text methods fields).map (·.declaration settings.indent) ∧
          List.Forall₂ (relocationOf r s fields methods).Moves methods moved ∧
            (headingsOf s fields methods).Pairwise Heading.Apart := by
  obtain ⟨-, s, names, signatures, fields, methods, moved, hparsed, hchosen, hcarried⟩ :=
    exists_of_extract h hresult
  exact ⟨s, names, signatures, fields, methods, moved, hparsed, hchosen, hcarried.newSource,
    MovedField.flatMap_members_ofFields s.text methods settings.indent [] fields,
    Relocation.forall₂_moves hcarried.movedMethods,
    apart_headingsOf hparsed hchosen.foundFields hchosen.foundMethods⟩

def headings? (r : Request) (s : JavaSource) : Option (List Heading) :=
  match planFor {} r none s with
  | .rejected _ => none
  | .approved names signatures _ => do
    let fields ← (resolveFields s.model names).toOption
    let methods ← (resolveMethods s.model signatures).toOption
    some (headingsOf s fields methods)

theorem headings?_of_chosen (h : Chosen {} r none s names signatures issues fields methods) :
    headings? r s = some (headingsOf s fields methods) := by
  rw [headings?, h.approved]
  simp only [h.foundFields, h.foundMethods]
  rfl

section Listed

-- A moved method that takes what the setter of the field takes.
def listedSource : String := "class A\x7bint[] x;void setX(int...v)\x7b\x7d\x7d"

def listedRequest : Request := ⟨"B", "A.java", ["setX(int...)"], ["x"]⟩

def listedResult : String :=
  "class B \x7b\n    private int[] x;\n\n    public int[] getX() \x7b\n        return x;\n    \x7d\n\n"
    ++ "    public void setX(int[] x) \x7b\n        this.x = x;\n    \x7d\n\n"
    ++ "    void setX(int...v)\x7b\x7d\n\x7d\n"

def listedLeftover : String :=
  "class A\x7b\n    private B b = new B();\nvoid setX(int...v)\x7b\n        b.setX(v);\n    \x7d\x7d"

theorem exists_extract_listed : ∃ o result,
    extract {} listedRequest none listedSource = .ok o ∧ o.result = some result ∧
      result.newSource = listedResult := by
  have hprepare : prepare? {} listedRequest none listedSource =
      some ([.ofText ⟨34, 36⟩ "\x7b\n        b.setX(v);\n    \x7d", .deletion ⟨8, 16⟩,
        .insertion 8 "\n    private B b = new B();\n"], listedResult) := by decide +kernel
  have happly : Patch.apply ⟨[.ofText ⟨34, 36⟩ "\x7b\n        b.setX(v);\n    \x7d",
      .deletion ⟨8, 16⟩, .insertion 8 "\n    private B b = new B();\n"]⟩ listedSource =
        .ok listedLeftover := by cbv
  obtain ⟨o, hextract, hresult⟩ :=
    extract_of_prepare? hprepare happly (by decide +kernel) (by decide +kernel)
  exact ⟨o, _, hextract, hresult, rfl⟩

theorem apart_of_extract_listed : ∃ s names signatures issues fields methods,
    parseFor listedRequest listedSource = .ok s ∧
      Chosen {} listedRequest none s names signatures issues fields methods ∧
        headingsOf s fields methods =
          [⟨"getX", []⟩, ⟨"setX", [("int[]", false)]⟩, ⟨"setX", [("int", true)]⟩] ∧
        (headingsOf s fields methods).Pairwise Heading.Apart := by
  obtain ⟨o, result, hextract, hresult, -⟩ := exists_extract_listed
  obtain ⟨s, names, signatures, fields, methods, moved, hparsed, hchosen, -, -, -, hapart⟩ :=
    apart_of_extract hextract hresult
  refine ⟨s, names, signatures, o.issues, fields, methods, hparsed, hchosen, ?_, hapart⟩
  have hheadings : (parseFor listedRequest listedSource).toOption.map (headings? listedRequest) =
      some (some [⟨"getX", []⟩, ⟨"setX", [("int[]", false)]⟩, ⟨"setX", [("int", true)]⟩]) := by
    decide +kernel
  rw [hparsed] at hheadings
  simpa [Except.toOption, headings?_of_chosen hchosen] using hheadings

-- The new class can declare two methods of which a class can have only one.
theorem not_forall_not_same :
    ¬∀ (settings : Settings) (r : Request) (facts : Option Facts) (source : String) (o : Outcome)
      (result : Extracted), extract settings r facts source = .ok o → o.result = some result →
        ∀ s names signatures fields methods, parseFor r source = .ok s →
          Chosen settings r facts s names signatures o.issues fields methods →
            (headingsOf s fields methods).Pairwise fun g h => ¬g.Same h := by
  intro h
  obtain ⟨o, result, hextract, hresult, -⟩ := exists_extract_listed
  obtain ⟨-, s, names, signatures, fields, methods, _, hparsed, hchosen, -⟩ :=
    exists_of_extract hextract hresult
  have hpairwise := h _ _ _ _ o result hextract hresult s names signatures fields methods hparsed
    hchosen
  have hsame : (parseFor listedRequest listedSource).toOption.map (fun s =>
      (headings? listedRequest s).any fun hs => decide (hs.Pairwise fun g h => ¬g.Same h)) =
        some false := by decide +kernel
  rw [hparsed] at hsame
  simp [Except.toOption, headings?_of_chosen hchosen, hpairwise] at hsame

end Listed

end Extraction

end ClassSplit
