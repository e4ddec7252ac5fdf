import ClassSplit.Proofs.Extraction.Steps
import ClassSplit.Proofs.Java.Name
import ClassSplit.Proofs.Scope.Binding
import ClassSplit.Proofs.Text.Identifiers
import Mathlib

/-!
The name of the helper field. Candidates are numbered, so that one of them can be declared and is
not in use; what is in use is found by a scan of the class, and the name can be bound closer than
the field only by a declaration that the scan overlooks. Main statement: `helper_of_extract`.
-/

namespace ClassSplit

-- The scan of the class for identifiers does not find the text of a site.
def JavaSource.Overlooks (s : JavaSource) (t : Java.Site) : Prop :=
  Text.Overlooked (Text.slice s.text ⟨s.model.span.start, t.span.start⟩)
    (Text.slice s.text ⟨t.span.stop, s.model.span.stop⟩)

namespace Extraction

section Name

variable {settings : Settings} {s : JavaSource} {base newClass : String} {k : Nat}

-- The name of the helper field if it is not in use.
def helperBase (settings : Settings) (newClass : String) : String :=
  settings.helperName.getD (String.ofList (Text.decapitalize newClass.toList))

theorem helperCandidate_injective (base : String) : (helperCandidate base).Injective := by
  intro m n h
  cases m with
  | zero =>
    cases n with
    | zero => rfl
    | succ n => exact absurd h (Java.ne_append_toString base (n + 2))
  | succ m =>
    cases n with
    | zero => exact absurd h.symm (Java.ne_append_toString base (m + 2))
    | succ n =>
      have heq := Java.append_toString_injective base h
      omega

-- If one of the candidates can be declared, then so can all that have a number.
theorem isDeclarable_helperCandidate (h : Java.isDeclarable (helperCandidate base k) = true)
    (n : Nat) : Java.isDeclarable (helperCandidate base (n + 1)) = true := by
  have hbase : Java.IsIdentifier base := by
    obtain ⟨hname, -⟩ := Java.isDeclarable_iff.mp h
    cases k with
    | zero => exact hname
    | succ k => exact Java.isIdentifier_append_toString.mp hname
  exact Java.isDeclarable_iff.mpr ⟨Java.isIdentifier_append_toString.mpr hbase,
    Java.append_toString_not_mem_reservedWords base (n + 2)⟩

theorem free_helperName (s : JavaSource)
    (h : ∃ k, Java.isDeclarable (helperCandidate (helperBase settings newClass) k) = true) :
    Java.isDeclarable (helperName settings s newClass) = true ∧
      helperName settings s newClass ∉ namesInUse s := by
  obtain ⟨k, hk⟩ := h
  obtain ⟨n, hn, hfree⟩ := Java.exists_not_mem_of_injective
    ((helperCandidate_injective (helperBase settings newClass)).comp Nat.succ_injective)
    (namesInUse s)
  let isTaken (name : String) : Bool := (namesInUse s).contains name || !Java.isDeclarable name
  have hcandidate : isTaken (helperCandidate (helperBase settings newClass) (0 + (n + 1))) = false := by
    simp only [isTaken, Nat.zero_add, isDeclarable_helperCandidate hk n]
    simpa using hfree
  have hreserved : 0 < Java.reservedWords.length := by decide
  have hlength : n + 1 ≤ (namesInUse s).length + Java.reservedWords.length := by omega
  have hfound : isTaken (helperName settings s newClass) = false :=
    not_taken_firstFree ⟨n + 1, hlength, hcandidate⟩
  simp only [isTaken, Bool.or_eq_false_iff] at hfound
  exact ⟨by simpa using hfound.right, by simpa using hfound.left⟩

end Name

section Capture

variable {settings : Settings} {r : Request} {facts : Option Facts} {source : String}
  {s : JavaSource} {o : Outcome} {body t : Java.Site} {name : String}

theorem overlooks_of_not_mem_namesInUse {wanted : Option String}
    (hparsed : JavaSource.parse source wanted = .ok s) (hbody : s.PrimaryBody body)
    (hname : Java.isDeclarable name = true) (hfree : name ∉ namesInUse s) (ht : t ∈ body.preorder)
    (htext : s.textAt t = name) : s.Overlooks t := by
  obtain ⟨hname, -⟩ := Java.isDeclarable_iff.mp hname
  obtain ⟨c, hc, hfirst⟩ := (Option.any_eq_true _ _).mp hname.start
  obtain ⟨hclass, hcovers⟩ := JavaSource.span_covers_body hparsed hbody
  have hsound := Java.Site.sound_of_mem_preorder hbody.sound ht
  have hwithin := Span.covers_iff.mp
    (Span.covers_trans hcovers (Java.Site.covers_of_mem_preorder hbody.sound ht))
  have hword : name.toList = Text.slice s.text t.span := by
    rw [← htext]
    exact JavaSource.toList_textOf hsound
  -- The text of the class in front of the site, at it and behind it.
  have hsplit : Text.slice s.text ⟨s.model.span.start, t.span.start⟩
      ++ (name.toList ++ Text.slice s.text ⟨t.span.stop, s.model.span.stop⟩) =
        Text.slice s.text s.model.span := by
    have hrest : Text.slice s.text t.span ++ Text.slice s.text ⟨t.span.stop, s.model.span.stop⟩ =
        Text.slice s.text ⟨t.span.start, s.model.span.stop⟩ :=
      Text.slice_append hsound.fits.ordered hwithin.right hsound.fits.start hsound.fits.stop
        hclass.stop
    rw [hword, hrest]
    exact Text.slice_append hwithin.left (hsound.fits.ordered.trans hwithin.right) hclass.start
      hsound.fits.start hclass.stop
  have hdigit : name.toList.head?.all (!·.isDigit) = true := by
    rw [hc]
    simp [Java.isDigit_eq_false_of_isNameStart hfirst]
  have hnotFound : name.toList ∉ Text.identifiers (Text.slice s.text s.model.span) := by
    intro hmem
    refine hfree (List.mem_append_left _ ?_)
    have hname := List.mem_map_of_mem (f := String.ofList) hmem
    rwa [String.ofList_toList] at hname
  rw [← hsplit] at hnotFound
  exact Text.overlooked_of_not_mem_identifiers hname.ne_nil hname.chars hdigit hnotFound

theorem helper_of_extract {result : Extracted} (h : extract settings r facts source = .ok o)
    (hresult : o.result = some result)
    (hbase : ∃ k, Java.isDeclarable (helperCandidate (helperBase settings r.newClass) k) = true) :
    ∃ s names signatures fields methods body, parseFor r source = .ok s ∧
      Chosen settings r facts s names signatures o.issues fields methods ∧
        (delegationOf settings r s fields methods).patchedSource = .ok result.oldSource ∧
          s.classBody? = some body ∧
            ∀ helper, (delegationOf settings r s fields methods).helper = some helper →
              Java.isDeclarable helper = true ∧ (∀ f ∈ s.model.fields, f.name ≠ helper) ∧
                (∀ t ∈ body.preorder, s.textAt t = helper → s.Overlooks t) ∧
                  ∀ member ∈ body.node.children, ∀ site ∈ (body.below member).preorder,
                    (s.localBinding? site helper).isSome = true →
                      ∃ t ∈ body.preorder, s.textAt t = helper ∧ s.Overlooks t := by
  obtain ⟨-, s, names, signatures, fields, methods, moved, hparsed, hchosen, hcarried⟩ :=
    exists_of_extract h hresult
  obtain ⟨body, hbody, -⟩ := JavaSource.exists_primaryBody_of_parse hparsed
  refine ⟨s, names, signatures, fields, methods, body, hparsed, hchosen, hcarried.patched,
    hbody.found, ?_⟩
  intro helper hhelper
  have hhelper : helperName settings s r.newClass = helper := by
    simp only [delegationOf, helperOf] at hhelper
    split at hhelper
    case isTrue => exact Option.some.inj hhelper
    case isFalse => cases hhelper
  obtain ⟨hdeclarable, hfree⟩ := free_helperName s hbase
  rw [hhelper] at hdeclarable hfree
  have hoverlooks (t : Java.Site) (ht : t ∈ body.preorder) (htext : s.textAt t = helper) :=
    overlooks_of_not_mem_namesInUse hparsed hbody hdeclarable hfree ht htext
  refine ⟨hdeclarable, ?_, hoverlooks, ?_⟩
  · rintro f hf rfl
    exact hfree (List.mem_append_right _ (List.mem_map_of_mem hf))
  · intro member hmember site hsite hbound
    obtain ⟨b, hb⟩ := Option.isSome_iff_exists.mp hbound
    obtain ⟨t, ht, htext⟩ := JavaSource.exists_textAt_of_localBinding? hbody hmember hsite hb
    exact ⟨t, ht, htext, hoverlooks t ht htext⟩

end Capture

section Spread

-- A parameter behind the dots of a variable number of arguments.
def spreadSource : String := "class A\x7bboolean x;void m(int...b)\x7bx=true;\x7d\x7d"

def spreadRequest : Request := ⟨"B", "A.java", [], ["x"]⟩

def spreadHelper? (s : JavaSource) : Option String :=
  match planFor {} spreadRequest none s with
  | .rejected _ => none
  | .approved names signatures _ => do
    let fields ← (resolveFields s.model names).toOption
    let methods ← (resolveMethods s.model signatures).toOption
    (delegationOf {} spreadRequest s fields methods).helper

theorem spreadHelper?_of_chosen {s : JavaSource} {names signatures : List String}
    {issues : List Issue} {fields : List Field} {methods : List Method}
    (h : Chosen {} spreadRequest none s names signatures issues fields methods) :
    (delegationOf {} spreadRequest s fields methods).helper = spreadHelper? s := by
  rw [spreadHelper?, h.approved]
  simp only [h.foundFields, h.foundMethods]
  rfl

theorem exists_extract_spread : ∃ o result,
    extract {} spreadRequest none spreadSource = .ok o ∧ o.result = some result ∧
      result.oldSource = "class A\x7b\n    private B b = new B();\nvoid m(int...b)\x7bb.setX(true);\x7d\x7d" := by
  have hprepare : prepare? {} spreadRequest none spreadSource =
      some ([.deletion ⟨8, 18⟩, .insertion 8 "\n    private B b = new B();\n",
        ⟨⟨34, 40⟩, [.text "b.setX(", .source ⟨36, 40⟩, .text ")"]⟩],
        "class B \x7b\n    private boolean x;\n\n    public boolean getX() \x7b\n"
          ++ "        return x;\n    \x7d\n\n    public void setX(boolean x) \x7b\n"
          ++ "        this.x = x;\n    \x7d\n\x7d\n") := by decide +kernel
  have happly : Patch.apply ⟨[.deletion ⟨8, 18⟩, .insertion 8 "\n    private B b = new B();\n",
      ⟨⟨34, 40⟩, [.text "b.setX(", .source ⟨36, 40⟩, .text ")"]⟩]⟩ spreadSource =
        .ok "class A\x7b\n    private B b = new B();\nvoid m(int...b)\x7bb.setX(true);\x7d\x7d" := by
    cbv
  obtain ⟨o, hextract, hresult⟩ :=
    extract_of_prepare? hprepare happly (by decide +kernel) (by decide +kernel)
  exact ⟨o, _, hextract, hresult, rfl⟩

-- The parameter is what the name of the helper means where the field is written.
theorem exists_bound_spread : ∃ s body, parseFor spreadRequest spreadSource = .ok s ∧
    spreadHelper? s = some "b" ∧ s.classBody? = some body ∧
      ∃ member ∈ body.node.children, ∃ site ∈ (body.below member).preorder,
        (s.localBinding? site "b").isSome = true := by
  have hcheck : (parseFor spreadRequest spreadSource).toOption.any (fun s =>
      spreadHelper? s == some "b" && s.classBody?.any fun body =>
        body.node.children.any fun member => (body.below member).preorder.any fun site =>
          (s.localBinding? site "b").isSome) = true := by decide +kernel
  obtain ⟨s, hparsed, hcheck⟩ := exists_of_any_toOption hcheck
  simp only [Bool.and_eq_true, beq_iff_eq, Option.any_eq_true, List.any_eq_true] at hcheck
  obtain ⟨hhelper, body, hbody, hbound⟩ := hcheck
  exact ⟨s, body, hparsed, hhelper, hbody, hbound⟩

theorem helper_of_extract_spread : ∃ s body t, parseFor spreadRequest spreadSource = .ok s ∧
    s.classBody? = some body ∧ t ∈ body.preorder ∧ s.textAt t = "b" ∧ s.Overlooks t := by
  obtain ⟨o, result, hextract, hresult, -⟩ := exists_extract_spread
  obtain ⟨s', body', hparsed', hhelper, hbody', member, hmember, site, hsite, hbound⟩ :=
    exists_bound_spread
  obtain ⟨s, names, signatures, fields, methods, body, hparsed, hchosen, -, hbody, hall⟩ :=
    helper_of_extract hextract hresult ⟨1, by decide +kernel⟩
  obtain rfl : s' = s := Except.ok.inj (hparsed'.symm.trans hparsed)
  obtain rfl : body' = body := Option.some.inj (hbody'.symm.trans hbody)
  rw [← spreadHelper?_of_chosen hchosen] at hhelper
  obtain ⟨-, -, -, hoverlooked⟩ := hall "b" hhelper
  obtain ⟨t, ht, htext, hoverlooks⟩ := hoverlooked member hmember site hsite hbound
  exact ⟨s', body', t, hparsed, hbody, ht, htext, hoverlooks⟩

-- The helper field can be hidden by a declaration in the class.
theorem not_forall_localBinding?_eq_none :
    ¬∀ (settings : Settings) (r : Request) (facts : Option Facts) (source : String) (o : Outcome)
      (result : Extracted), extract settings r facts source = .ok o → o.result = some result →
        ∀ s names signatures fields methods helper body site,
          parseFor r source = .ok s →
            Chosen settings r facts s names signatures o.issues fields methods →
              (delegationOf settings r s fields methods).helper = some helper →
                s.classBody? = some body → site ∈ body.preorder →
                  s.localBinding? site helper = none := by
  intro h
  obtain ⟨o, result, hextract, hresult, -⟩ := exists_extract_spread
  obtain ⟨s', body, hparsed', hhelper, hbody, member, hmember, site, hsite, hbound⟩ :=
    exists_bound_spread
  obtain ⟨-, s, names, signatures, fields, methods, _, hparsed, hchosen, -⟩ :=
    exists_of_extract hextract hresult
  obtain rfl : s' = s := Except.ok.inj (hparsed'.symm.trans hparsed)
  rw [← spreadHelper?_of_chosen hchosen] at hhelper
  have hmem := Java.Site.mem_preorder.mpr
    (.inr ⟨_, Java.Site.mem_children.mpr ⟨member, hmember, rfl⟩, hsite⟩)
  rw [h _ _ _ _ o result hextract hresult s' names signatures fields methods "b" body site hparsed
    hchosen hhelper hbody hmem] at hbound
  cases hbound

end Spread

end Extraction

end ClassSplit
