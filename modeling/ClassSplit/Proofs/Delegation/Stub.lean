import ClassSplit.Proofs.Delegation.Patch
import ClassSplit.Proofs.Model.Parameters
import ClassSplit.Proofs.Patch.Outermost

/-!
What stands in the place of the body of a method that moves: one call, which hands all parameters
on. No other replacement encloses the one of the body, and what lies in the body is not shown. Main
statement: `Delegation.exists_stub_of_patchedSource`.
-/

namespace ClassSplit

open Java Replacement

namespace Delegation

variable {d : Delegation} {body : Site} {gone deleted : List Span} {m : Method}
  {r s : Replacement} {names : List String} {source out : String}

section Assembly

variable {member n : Node} (h : d.Assembly body gone deleted) (hmem : member ∈ body.node.children)

include h hmem

-- What lies in one member of the class covers nothing of another.
theorem Assembly.eq_of_covers {c : Node} {inner outer : Span} (hc : c ∈ body.node.children)
    (hin : member.span.covers inner = true) (hout : c.span.covers outer = true)
    (hnonempty : inner.start < inner.stop) (hcovers : outer.covers inner = true) : c = member := by
  refine (h.primary.sound.eq_or_beside hc hmem).resolve_right fun hbeside => ?_
  exact (hbeside.mono hout hin).not_covers hnonempty hcovers

variable (hkind : member.kind = .methodDeclaration ∨ member.kind = .constructorDeclaration)

include hkind

-- A reference around a child of a method would be the child itself or lie in it.
theorem Assembly.covers_of_reference {site : Site} (hn : n ∈ member.children)
    (hsite : site ∈ body.preorder) (hsubject : site.kind.isSubject = true)
    (hcovers : site.span.covers n.span = true) : n.span.covers site.span = true := by
  have hsound := (h.primary.of_mem_children hmem).left
  have hnonempty := (hsound.of_mem_children hn).nonempty
  obtain ⟨c, hc, hbelow⟩ := h.below_of_mem_preorder hsite hsubject
  obtain rfl : c = member := h.eq_of_covers hmem hc (hsound.covers_child hn)
    (h.inside_of_mem_preorder hc hbelow).covers hnonempty hcovers
  obtain rfl | ⟨t, ht, hsite⟩ := Site.mem_preorder.mp hbelow
  · obtain hkind | hkind := hkind
    all_goals
      simp only [Site.kind, Site.below, hkind] at hsubject
      cases hsubject
  · obtain ⟨k, hk, rfl⟩ := Site.mem_children.mp ht
    have hkin := Site.covers_of_mem_preorder (hsound.of_mem_children hk) hsite
    obtain rfl : k = n := by
      refine (hsound.eq_or_beside hk hn).resolve_right fun hbeside => ?_
      exact hbeside.not_covers hnonempty (Span.covers_trans hkin hcovers)
    exact hkin

-- Deleted spans hold fields and comments, and references are only replaced outside of the bodies.
theorem Assembly.not_encloses_body {text : String} (hn : member.child? .body = some n)
    (hgone : n.span ∈ gone) (hs : d.Placed body gone deleted s) :
    s.encloses (.ofText n.span text) = false := by
  have hsound := (h.primary.of_mem_children hmem).left
  have hnmem := List.mem_of_find?_eq_some hn
  have hin := hsound.covers_child hnmem
  have hnonempty := (hsound.of_mem_children hnmem).nonempty
  refine Bool.eq_false_iff.mpr fun hencloses => ?_
  have hcovers : s.span.covers n.span = true := covers_of_encloses hencloses
  cases hs with
  | @stub m' member' n' text' hmember' hkind' hread' hn' =>
    obtain ⟨hmem', -, hinside, -⟩ := h.stub_inside hmember' hkind' hn'
    obtain rfl := h.eq_of_covers hmem hmem' hin hinside.covers hnonempty hcovers
    rw [hn] at hn'
    cases hn'
    obtain ⟨-, hne, -⟩ := encloses_iff.mp hencloses
    exact hne ⟨rfl, rfl⟩
  | hull hat hkind' hhull =>
    obtain ⟨hmem', hinside, -⟩ := hull_inside hat hhull
    obtain rfl := h.eq_of_covers hmem hmem' hin hinside.covers hnonempty hcovers
    rw [hkind'] at hkind
    obtain hkind | hkind := hkind
    all_goals cases hkind
  | @deletion span hspan =>
    obtain hall | hbeside := h.clear span hspan member hmem
    · have hlight := h.light span hspan member hmem hall
      obtain hkind | hkind := hkind
      all_goals
        rw [Node.isComment, hkind] at hlight
        obtain hlight | hlight := hlight
        all_goals cases hlight
    · exact (hbeside.mono (Span.covers_refl _) hin).not_covers hnonempty hcovers
  | @reference site _ hsite hsubject hreplaces =>
    obtain ⟨hmemSite, hremains⟩ := mem_remaining.mp hsite
    rw [hreplaces.span] at hcovers
    have hback := h.covers_of_reference hmem hkind hnmem hmemSite hsubject hcovers
    rw [hremains _ hgone] at hback
    cases hback

end Assembly

theorem Assembled.maximal_stub {p : Patch} {stubs references : List Replacement}
    {removals : FieldRemovals} {shared : List Nat} (hd : d.OfSource source)
    (h : d.Assembled body p stubs removals shared deleted references) (hr : r ∈ stubs) :
    Maximal p.replacements r := by
  have hplaced := h.placed_stub hd hr
  have hmem : r ∈ p.replacements := by
    rw [h.patch]
    simp only [List.mem_append]
    exact .inl (.inl (.inl hr))
  refine ⟨hmem, hplaced.nonempty h.assembly, fun s hs => ?_⟩
  obtain ⟨m, hm, hstub⟩ := exists_mem_of_forall₂ h.bodies hr
  obtain ⟨member, hmember, hkind, -, n, text, hn, rfl⟩ :=
    exists_member_of_stub h.primary (hd.methods m hm) hstub
  obtain hs | ⟨helper, -, rfl⟩ := h.placed hd hs
  · refine h.assembly.not_encloses_body (List.mem_filter.mp hmember).left hkind hn ?_ hs
    exact List.mem_append_left _ (List.mem_map_of_mem (f := (·.span)) hr)
  · -- An insertion encloses nothing.
    simp [encloses, helperInsertion, insertion, ofText, isInsertion, Span.isEmpty, Span.point]

-- The declaration of a method in the class, its list of parameters and its body.
structure Declared (s : JavaSource) (m : Method) (declaration list block : Node) : Prop where
  member : ∃ body, s.classBody? = some body ∧ declaration ∈ body.node.namedChildren
  read : m = JavaSource.readMethod s.text (decide (declaration.kind = .constructorDeclaration))
    declaration
  parameters : declaration.child? .parameters = some list
  body : declaration.child? .body = some block

-- A block of one statement, which calls a method of a target with the given arguments.
def handover (d : Delegation) (m : Method) (margin target : String) (names : List String) :
    String :=
  "\x7b\n" ++ margin ++ d.indent ++ (if m.isVoid then "" else "return ") ++ target ++ "." ++ m.name
    ++ "(" ++ ", ".intercalate names ++ ");\n" ++ margin ++ "\x7d"

-- What the call is sent to, and the indentation of the block.
structure Sends (d : Delegation) (m : Method) (margin target : String) : Prop where
  target : if m.isStatic then target = d.newClass else d.helper = some target
  margin : Text.allBlank d.indent.toList = true → Text.allBlank margin.toList = true

theorem allBlank_getD_leadingIndent? (d : Delegation) (offset : Nat) :
    Text.allBlank ((d.leadingIndent? offset).getD "").toList = true := by
  have h := Text.allBlank_getD_leadingIndent d.source.text offset
  rw [leadingIndent?]
  cases hindent : Text.leadingIndent d.source.text offset with
  | none => rfl
  | some before =>
    rw [hindent] at h
    simpa using h

theorem allBlank_leadingIndent? {offset : Nat} {indent : String}
    (h : d.leadingIndent? offset = some indent) : Text.allBlank indent.toList = true := by
  have hblank := allBlank_getD_leadingIndent? d offset
  rw [h] at hblank
  exact hblank

theorem allBlank_memberIndent (h : Text.allBlank d.indent.toList = true) :
    Text.allBlank d.memberIndent.toList = true := by
  rw [memberIndent]
  split
  case h_1 hindent =>
    obtain ⟨offset, -, hindent⟩ := Option.bind_eq_some_iff.mp hindent
    exact allBlank_leadingIndent? hindent
  case h_2 =>
    have hclass := allBlank_getD_leadingIndent? d d.source.model.span.start
    rw [String.toList_append, Text.allBlank, List.all_append, Bool.and_eq_true]
    exact ⟨hclass, h⟩

theorem handover_eq (d : Delegation) (m : Method) (margin target : String) :
    d.handover m margin target (m.params.map (·.name)) =
      "\x7b\n" ++ margin ++ d.indent ++ delegatingCall target m ++ "\n" ++ margin ++ "\x7d" := by
  rw [handover, delegatingCall]
  split
  all_goals simp [String.append_assoc]

theorem exists_handover_of_stub (h : d.stub m = .ok r) : ∃ span margin target,
    m.body = some span ∧ d.Sends m margin target ∧
      r = .ofText span (d.handover m margin target (m.params.map (·.name))) := by
  simp only [stub] at h
  split at h
  case h_2 => cases h
  case h_1 span hspan =>
    have hmargin : Text.allBlank d.indent.toList = true →
        Text.allBlank ((d.leadingIndent? m.span.start).getD d.memberIndent).toList = true := by
      intro hblank
      cases hindent : d.leadingIndent? m.span.start with
      | none => exact allBlank_memberIndent hblank
      | some indent => exact allBlank_leadingIndent? hindent
    split at h
    case isTrue hstatic =>
      obtain ⟨target, htarget, heq⟩ := bind_eq_ok.mp h
      cases htarget
      cases heq
      exact ⟨span, _, _, hspan, ⟨by rw [if_pos hstatic], hmargin⟩, by rw [handover_eq]⟩
    case isFalse hstatic =>
      obtain ⟨target, htarget, heq⟩ := bind_eq_ok.mp h
      have hhelper : d.helper = some target := by
        rw [needHelper] at htarget
        split at htarget
        case h_1 hsome =>
          cases htarget
          exact hsome
        case h_2 => cases htarget
      cases heq
      exact ⟨span, _, _, hspan, ⟨by rw [if_neg hstatic]; exact hhelper, hmargin⟩, by rw [handover_eq]⟩

-- The text with the body replaced: in front of it and behind it stands what the replacements make
-- of the rest of the source.
theorem exists_stub_of_patchedSource (hd : d.OfSource source) (hout : d.patchedSource = .ok out)
    (hm : m ∈ d.methods) :
    ∃ p declaration list block names margin target, d.patch = .ok p ∧
      Declared d.source m declaration list block ∧
      JavaSource.Parameters d.source.text list names ∧ d.Sends m margin target ∧
        out.toList = rendering d.source.text p.replacements ⟨0, block.span.start⟩ ++
          (d.handover m margin target names).toList ++
            rendering d.source.text p.replacements
              ⟨block.span.stop, Text.byteLength d.source.text⟩ := by
  obtain ⟨p, hp, happly⟩ := bind_eq_ok.mp hout
  obtain ⟨htext, body, stubs, removals, shared, deleted, references, h⟩ := exists_assembled hd hp
  have hplaced := fun r (hr : r ∈ p.replacements) => h.placed hd hr
  have hfits := fits_of_placed h.assembly hplaced
  have hlaminar := laminar_of_placed h.assembly hplaced
  obtain ⟨us, r, vs, -, -, hstubs, -, hstub, -, -⟩ := exists_of_mem_forall₂ h.bodies hm
  have hmaximal : Maximal p.replacements r := h.maximal_stub hd (by simp [hstubs])
  obtain ⟨span, margin, target, hspan, hsends, rfl⟩ := exists_handover_of_stub hstub
  -- The body and the parameters are read from the declaration of the method.
  obtain ⟨declaration, hmember, hkind, hread⟩ := h.primary.methods m (hd.methods m hm)
  have hsound := (h.primary.of_mem_children (List.mem_filter.mp hmember).left).left
  obtain ⟨list, hlist, hparameters⟩ := JavaSource.exists_parameters hsound hkind
  have hbody : m.body = (declaration.child? .body).map (·.span) := by rw [hread]; rfl
  have hparams : m.params = JavaSource.readParameters d.source.text declaration := by
    rw [hread]; rfl
  rw [hspan] at hbody
  obtain ⟨block, hblock, rfl⟩ := Option.map_eq_some_iff.mp hbody.symm
  -- The text is what the replacements make of the source.
  rw [htext, String.ofList_toList, Patch.apply_eq_of_laminar (htext ▸ hfits) hlaminar] at happly
  have hbound := Text.le_byteLength_of_isBoundary (hfits _ hmaximal.mem).span.stop
  have hcovers : Span.covers ⟨0, Text.byteLength d.source.text⟩ block.span = true :=
    Span.covers_iff.mpr ⟨Nat.zero_le _, hbound⟩
  refine ⟨p, declaration, list, block, _, margin, target, hp,
    ⟨⟨body, h.primary.found, hmember⟩, hread, hlist, hblock⟩, hparameters, hsends, ?_⟩
  cases happly
  rw [String.toList_ofList, ← htext,
    rendering_split hlaminar (fun s hs => (hfits s hs).span.ordered) hmaximal hcovers, hparams]
  simp [Replacement.shown, ofText]

-- A class of which the field moves and both methods, one of them with a variadic parameter.
def forwardingSource : String :=
  "class A\x7bint x;int m(final int a,int... b)\x7breturn x+a;\x7dstatic void s()\x7b\x7d\x7d"

def forwardedFields (s : JavaSource) : List DelegatedField :=
  s.model.fields.map fun f => ⟨f, some ⟨"getX", some "setX", none⟩⟩

def forwarding (s : JavaSource) : Delegation where
  source := s
  newClass := "B"
  helper := some "b"
  methods := s.model.methods
  fields := fieldsOfList (forwardedFields s)
  indent := "  "

theorem ofSource_forwarding {s : JavaSource} (h : JavaSource.parse forwardingSource none = .ok s) :
    (forwarding s).OfSource forwardingSource where
  parsed := ⟨none, h⟩
  methods _ hm := hm
  fields := by
    refine ⟨forwardedFields s, fun f hf => ?_, rfl⟩
    obtain ⟨field, hfield, rfl⟩ := List.mem_map.mp hf
    exact hfield

theorem exists_patchedSource_forwarding : ∃ s m out,
    JavaSource.parse forwardingSource none = .ok s ∧ (forwarding s).patchedSource = .ok out ∧
      m ∈ (forwarding s).methods := by
  obtain ⟨s, hparse, hcheck⟩ := JavaSource.exists_parse_of_check forwardingSource
    (fun s => (forwarding s).patch.toOption.isSome && !s.model.methods.isEmpty) (by decide +kernel)
  obtain ⟨hpatch, hmethods⟩ := Bool.and_eq_true_iff.mp hcheck
  obtain ⟨m, hm⟩ := List.exists_mem_of_ne_nil s.model.methods (by simpa using hmethods)
  cases hp : (forwarding s).patch with
  | error e =>
    rw [hp] at hpatch
    cases hpatch
  | ok p =>
    have hd := ofSource_forwarding hparse
    obtain ⟨out, happly⟩ := hd.exists_apply hp
    obtain ⟨htext, -⟩ := exists_assembled hd hp
    refine ⟨s, m, out, hparse, ?_, hm⟩
    rw [patchedSource, hp, htext, String.ofList_toList]
    exact congrArg (Except.mapError _) happly

theorem exists_stub_forwarding : ∃ s m out, JavaSource.parse forwardingSource none = .ok s ∧
    (forwarding s).patchedSource = .ok out ∧ m ∈ (forwarding s).methods ∧
      ∃ p declaration list block names margin target, (forwarding s).patch = .ok p ∧
        Declared s m declaration list block ∧ JavaSource.Parameters s.text list names ∧
          (forwarding s).Sends m margin target ∧
            out.toList = rendering s.text p.replacements ⟨0, block.span.start⟩ ++
              ((forwarding s).handover m margin target names).toList ++
                rendering s.text p.replacements ⟨block.span.stop, Text.byteLength s.text⟩ := by
  obtain ⟨s, m, out, hparse, hout, hm⟩ := exists_patchedSource_forwarding
  exact ⟨s, m, out, hparse, hout, hm,
    exists_stub_of_patchedSource (ofSource_forwarding hparse) hout hm⟩

end Delegation

end ClassSplit
