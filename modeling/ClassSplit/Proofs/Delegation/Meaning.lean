import ClassSplit.Proofs.Delegation.RoutedBody
import ClassSplit.Proofs.NewClass.AccessorText

/-!
What the body of a method that stays means after its fields have moved. The text that stands for it
in the class that stays is read again as statements, and these do what the statements of the source
did: they end in the same fields, and the same values are seen. Main statements:
`Stays.runAll?_patched` and `not_forall_runAll?_patched`.
-/

namespace ClassSplit

open Java Replacement

namespace Delegation

variable {d : Delegation} {source : String} {body t site : Site} {declaration n : Node} {p : Patch}
  {stubs references : List Replacement} {removals : FieldRemovals} {shared : List Nat}
  {deleted : List Span} {r : Replacement} {out : String} {R : Routing}

-- The patch of a source that has been read gives a text.
theorem exists_patchedSource (hd : d.OfSource source) (h : d.patch.toOption.isSome = true) :
    ∃ out, d.patchedSource = .ok out := by
  obtain ⟨p, hp⟩ : ∃ p, d.patch = .ok p := by
    cases hresult : d.patch with
    | error e => rw [hresult] at h; cases h
    | ok p => exact ⟨p, rfl⟩
  obtain ⟨out, happly⟩ := hd.exists_apply hp
  obtain ⟨htext, -⟩ := exists_assembled hd hp
  refine ⟨out, ?_⟩
  rw [patchedSource, hp, htext, String.ofList_toList]
  exact congrArg (Except.mapError _) happly

namespace Stays

section Beside

variable (hstays : d.Stays body declaration n) (hd : d.OfSource source)
  (h : d.Assembled body p stubs removals shared deleted references)

include hstays

-- What refers to a field or changes one stands in the body or beside it.
theorem mem_or_beside (hsite : site ∈ body.preorder) (hsubject : site.kind.isSubject = true) :
    site ∈ ((body.below declaration).below n).preorder ∨ site.span.Beside n.span := by
  have hbody := hstays.quiet.primary.sound
  have hne : ∀ {kind : Kind}, kind.isSubject = false → site.kind ≠ kind := by
    rintro kind hno rfl
    rw [hsubject] at hno
    cases hno
  obtain rfl | ⟨c, hc, hin⟩ := Site.mem_preorder.mp hsite
  · exact absurd hstays.quiet.primary.isClassBody.kind (hne rfl)
  obtain ⟨m, hm, rfl⟩ := Site.mem_children.mp hc
  have hcovers := Site.covers_of_mem_preorder (s := body.below m) (hbody.of_mem_children hm) hin
  by_cases hmember : m = declaration
  case neg => exact .inr (hstays.beside_of_ne hm hmember hcovers)
  case pos =>
    subst hmember
    obtain rfl | ⟨c, hc, hin⟩ := Site.mem_preorder.mp hin
    · exact absurd hstays.isMethod (hne rfl)
    obtain ⟨k, hk, rfl⟩ := Site.mem_children.mp hc
    have hcovers := Site.covers_of_mem_preorder (s := (body.below m).below k)
      (hstays.sound.of_mem_children hk) hin
    obtain rfl | hbeside := hstays.sound.eq_or_beside hk hstays.mem_block
    · exact .inl hin
    · exact .inr (hbeside.mono hcovers (Span.covers_refl _))

include hd h

-- No replacement reaches over an end of the body.
theorem covers_or_beside (hr : r ∈ p.replacements) :
    n.span.covers r.span = true ∨ r.span.Beside n.span := by
  have hr' := hr
  rw [h.patch] at hr
  simp only [List.mem_append, Option.mem_toList, Option.map_eq_some_iff] at hr
  obtain ((hr | hr) | ⟨helper, -, rfl⟩) | hr := hr
  · exact .inr (hstays.beside_stub hd h hr)
  · exact .inr (hstays.beside_removal hd h hr)
  · refine .inr (.inl ?_)
    have hmark : declaration.isMark = false :=
      Node.isMark_of_kind_ne fun word => by simp [hstays.isMethod]
    have hbehind := h.primary.start_lt_of_isMark hstays.mem_children hmark
    have hblock := (Span.covers_iff.mp hstays.covers_block).left
    change d.source.model.body.start + 1 ≤ n.span.start
    rw [h.primary.span]
    exact Nat.le_trans hbehind hblock
  · obtain ⟨u, hu, hsubject, hreplaces, -⟩ := h.exists_site hr
    rw [hreplaces.span]
    refine (hstays.mem_or_beside (Delegation.mem_remaining.mp hu).left hsubject).imp ?_ id
    exact Site.covers_of_mem_preorder (hstays.sound.of_mem_children hstays.mem_block)

theorem neat : Neat (p.replacements.filter (n.span.covers ·.span)) where
  laminar := (laminar_of_placed h.assembly fun r hr => h.placed hd hr).mono fun r hr =>
    (List.mem_filter.mp hr).left
  nonempty r hr := by
    obtain ⟨hr, hcovers⟩ := List.mem_filter.mp hr
    exact (h.placed_reference (hstays.mem_references hd h hr hcovers)).nonempty h.assembly

end Beside

-- In the text after the patch the body is what the replacements make of it.
theorem exists_of_patchedSource (hstays : d.Stays body declaration n) (hd : d.OfSource source)
    (hp : d.patch = .ok p) (hout : d.patchedSource = .ok out) :
    ∃ back, out.toList = rendering d.source.text p.replacements ⟨0, n.span.start⟩ ++
      rendering d.source.text p.replacements n.span ++ back := by
  obtain ⟨htext, body', stubs, removals, shared, deleted, references, h⟩ := exists_assembled hd hp
  obtain rfl : body' = body :=
    Option.some.inj (h.primary.found.symm.trans hstays.quiet.primary.found)
  have hplaced := fun r (hr : r ∈ p.replacements) => h.placed hd hr
  have hfits := fits_of_placed h.assembly hplaced
  have hlaminar := laminar_of_placed h.assembly hplaced
  have hordered : ∀ r ∈ p.replacements, r.span.Ordered := fun r hr => (hfits r hr).span.ordered
  have hsound := hstays.sound.of_mem_children hstays.mem_block
  have hlt := hsound.nonempty
  have hbound := Text.le_byteLength_of_isBoundary hsound.fits.stop
  obtain ⟨p', hp', happly⟩ := bind_eq_ok.mp hout
  rw [hp] at hp'
  cases hp'
  rw [htext, String.ofList_toList, Patch.apply_eq_of_laminar (htext ▸ hfits) hlaminar] at happly
  cases happly
  have hplace := fun r (hr : r ∈ p.replacements) => hstays.covers_or_beside hd h hr
  have hmem : ∀ r ∈ beyond p.replacements n.span.start, r ∈ p.replacements := fun r hr =>
    (List.mem_filter.mp hr).left
  have hcut : IsCut p.replacements 0 n.span.start (Text.byteLength d.source.text) := by
    intro r hr _
    obtain hcovers | hbeside := hplace r hr
    · exact .inr (Span.covers_iff.mp hcovers).left
    · exact hbeside.imp id fun hbehind => by omega
  have hcut' : IsCut (beyond p.replacements n.span.start) n.span.start n.span.stop
      (Text.byteLength d.source.text) := by
    intro r hr _
    obtain hcovers | hbeside := hplace r (hmem r hr)
    · exact .inl (Span.covers_iff.mp hcovers).right
    · exact hbeside.imp (fun hfront => by omega) id
  have hbody : rendering d.source.text (beyond p.replacements n.span.start)
      ⟨n.span.start, n.span.stop⟩ = rendering d.source.text p.replacements n.span := by
    refine rendering_congr_covers (fun r hcovers => ⟨hmem r, fun hr => ?_⟩) (hlaminar.mono hmem)
      fun r hr => hordered r (hmem r hr)
    have hlt := (hstays.neat hd h).nonempty r (List.mem_filter.mpr ⟨hr, hcovers⟩)
    have hstart : n.span.start ≤ r.span.start := (Span.covers_iff.mp hcovers).left
    exact List.mem_filter.mpr ⟨hr, decide_eq_true (by omega)⟩
  rw [String.toList_ofList, ← htext,
    rendering_cut hcut hordered (Nat.zero_le _) (by omega),
    rendering_cut hcut' (fun r hr => hordered r (hmem r hr)) (by omega) hbound, hbody,
    ← List.append_assoc]
  exact ⟨_, rfl⟩

-- The body of a method that stays, with statements over integral fields that move, parameters and
-- literals, does in the class that stays, with the accessors, what it did in the source.
theorem runAll?_patched {ts : List Statement} {methods : List Procedure} {indent : String}
    {parameters : String → Option Value} (hstays : d.Stays body declaration n)
    (hd : d.OfSource source) (hout : d.patchedSource = .ok out) (hroutes : d.Routes declaration R)
    (hsay : R.Sayable) (hclear : ClearlySigned d.source ((body.below declaration).below n))
    (hread : n.phrase? = some (.block (ts.map .run))) (hts : ∀ t ∈ ts, R.admitsStatement t = true)
    (hdeclared : R.Declares methods indent) (hsupplied : R.Supplies parameters) :
    ∃ p back us, d.patch = .ok p ∧
      out.toList = rendering d.source.text p.replacements ⟨0, n.span.start⟩ ++
        rendering d.source.text p.replacements n.span ++ back ∧
      readBlock? (rendering d.source.text p.replacements n.span) = some (us.map .run) ∧
        ∀ s o, s.Typed R.types → Statement.runAll? (.inside parameters R.types) ts s = some o →
          Statement.runAll? (.delegating parameters R.types R.helper methods) us s = some o := by
  obtain ⟨p, hp, -⟩ := bind_eq_ok.mp hout
  obtain ⟨htext, body', stubs, removals, shared, deleted, references, h⟩ := exists_assembled hd hp
  obtain rfl : body' = body :=
    Option.some.inj (h.primary.found.symm.trans hstays.quiet.primary.found)
  obtain ⟨back, hback⟩ := hstays.exists_of_patchedSource hd hp hout
  have hblock := hstays.reroutedBlock hd h hroutes hsay hclear hread hts
  have hsound := hstays.sound.of_mem_children hstays.mem_block
  obtain ⟨wanted, hparsed⟩ := hd.parsed
  have hcomposed : n.Composed d.source.text :=
    Site.composed_of_mem_preorder (hstays.quiet.primary.composed hparsed) hstays.quiet.mem_preorder
  refine ⟨p, back, ts.map R.delegatedStatement, hp, hback, ?_, fun s o hs ho => ?_⟩
  · rw [← rendering_filter_covers]
    exact hblock.readBlock?_rendering (hstays.neat hd h) hsay hsound (hcomposed.written hread)
  · exact Routing.runAll?_delegated hdeclared.servedBy hsupplied
      (fun t ht => Routing.accepts_of_admitsStatement (hts t ht)) hs ho

end Stays

def steppedRoute : Route where
  type := .int
  nameOf
    | .getter => "getX"
    | .setter => "setX"
    | .increment => "incX"
    | .postIncrement => "postIncX"
    | .decrement => "decX"
    | .postDecrement => "postDecX"

-- A field that is reached by all six methods, and a parameter.
def steppedRouting : Routing where
  helper := "b"
  route word := if word = "x" then some steppedRoute else none
  isParameter word := word == "a"

def steppedMethods : List Procedure :=
  [AccessorForm.getter, .setter, .increment, .postIncrement, .decrement, .postDecrement].map
    fun form => form.procedure .int "x" (steppedRoute.nameOf form)

def steppedParameters (word : String) : Option Value :=
  if word = "a" then some (.ofNumber .int 4) else none

def steppedFields : Fields := fun _ => .ofNumber .int 3

theorem eq_of_route_stepped {word : String} {r : Route} (h : steppedRouting.route word = some r) :
    word = "x" ∧ r = steppedRoute := by
  obtain ⟨rfl, hr⟩ := Option.ite_none_right_eq_some.mp h
  exact ⟨rfl, (Option.some.inj hr).symm⟩

theorem sayable_stepped : steppedRouting.Sayable where
  helper := ⟨⟨_, _, rfl, by decide +kernel, List.all_eq_true.mp (by decide +kernel)⟩, rfl⟩
  notKeyword := by decide
  nameOf word r h form := by
    obtain ⟨rfl, rfl⟩ := eq_of_route_stepped h
    cases form
    all_goals
      exact ⟨⟨_, _, rfl, by decide +kernel, List.all_eq_true.mp (by decide +kernel)⟩, rfl⟩

theorem declares_stepped : steppedRouting.Declares steppedMethods "    " := by
  have hname : Nameable "x" :=
    ⟨⟨_, _, rfl, by decide +kernel, List.all_eq_true.mp (by decide +kernel)⟩, rfl⟩
  have hblank : ∀ c ∈ "    ".toList, isGap c = true := List.all_eq_true.mp (by decide)
  refine ⟨hblank, fun word r h => ?_, fun word r h form => ?_⟩
  · obtain ⟨rfl, -⟩ := eq_of_route_stepped h
    exact hname
  · obtain ⟨rfl, rfl⟩ := eq_of_route_stepped h
    refine ⟨form.procedure .int "x" (steppedRoute.nameOf form),
      ⟨"x", "int", .none, none, ⟨0, 0⟩, ⟨0, 0⟩, 0⟩, ?_, rfl, rfl,
      form.readBlock?_statement hname hblank .int _⟩
    cases form
    all_goals decide

theorem supplies_stepped : steppedRouting.Supplies steppedParameters where
  isParameter word := by
    rw [steppedParameters, steppedRouting]
    split
    case isTrue h => simp [h]
    case isFalse h => simp [h]
  helper := rfl

theorem typed_stepped : steppedFields.Typed steppedRouting.types := by
  intro word t h
  obtain ⟨r, hr, rfl⟩ := Option.map_eq_some_iff.mp h
  obtain ⟨-, rfl⟩ := eq_of_route_stepped hr
  rfl

-- A method that stays has a body with some statements and passes a test.
def bodyStays (s : JavaSource) (ts : List Statement) (test : Site → Node → Bool) : Bool :=
  s.classBody?.any fun body => body.node.namedChildren.any fun declaration =>
    (declaration.child? .body).any fun n =>
      declaration.kind = .methodDeclaration && n.kind = .block
        && n.children.all (·.kind ≠ .localVariableDeclaration)
        && (body.below declaration).preorder.all (·.kind ≠ .instanceofExpression)
        && n.phrase? = some (.block (ts.map .run))
        && (JavaSource.readParameters s.text declaration).map (·.name) = ["a"]
        && test (body.below declaration) n

theorem exists_body_of_bodyStays {s : JavaSource} {ts : List Statement} {test : Site → Node → Bool}
    (hparse : JavaSource.parse source none = .ok s) (h : bodyStays s ts test = true)
    (hfield : ((fieldsMoved (some stepNames) s).fields.get? "x").any (fun f =>
      f.accessors = some steppedRoute.accessors && f.field.type = "int") = true) :
    ∃ body declaration n, (fieldsMoved (some stepNames) s).Stays body declaration n ∧
      (fieldsMoved (some stepNames) s).Routes declaration steppedRouting ∧
        n.phrase? = some (.block (ts.map .run)) ∧ test (body.below declaration) n = true := by
  simp only [bodyStays, Option.any_eq_true, List.any_eq_true, Bool.and_eq_true,
    decide_eq_true_eq, List.all_eq_true] at h
  obtain ⟨body, hbody, declaration, hmember, n, hn, ⟨⟨⟨⟨⟨hkind, hblock⟩, hquiet⟩, huntested⟩,
    hread⟩, hparameters⟩, htest⟩ := h
  obtain ⟨body', hprimary, -⟩ := JavaSource.exists_primaryBody_of_parse hparse
  obtain rfl : body' = body := Option.some.inj (hprimary.found.symm.trans hbody)
  refine ⟨body', declaration, n, ⟨⟨hprimary, hmember, .inl hkind, hn, hblock, hquiet, huntested⟩,
    hkind, by simp [fieldsMoved]⟩, ⟨rfl, fun word => ?_, fun word r hr => ?_⟩, hread, htest⟩
  · rw [show (fieldsMoved (some stepNames) s).source = s from rfl, hparameters]
    simp [steppedRouting]
  · obtain ⟨rfl, rfl⟩ := eq_of_route_stepped hr
    simp only [Option.any_eq_true, Bool.and_eq_true, decide_eq_true_eq] at hfield
    obtain ⟨f, hf, haccessors, htype⟩ := hfield
    exact ⟨f, hf, haccessors, htype⟩

def steppedSource : String := "class A\x7bint x;void m(int a)\x7bx+=a;x=x--*2;\x7d\x7d"

def steppedStatements : List Statement :=
  [.combine (.name "x") .plus (.read (.name "a")),
    .assign (.name "x")
      (.binary .times (.step false false (.name "x")) (.literal (.ofNumber .int 2)))]

theorem runAll?_patched_stepped : ∃ s body declaration n out p back us o,
    JavaSource.parse steppedSource none = .ok s ∧
      (fieldsMoved (some stepNames) s).Stays body declaration n ∧
      n.phrase? = some (.block (steppedStatements.map .run)) ∧
      (fieldsMoved (some stepNames) s).patch = .ok p ∧
      (fieldsMoved (some stepNames) s).patchedSource = .ok out ∧
      out.toList = rendering s.text p.replacements ⟨0, n.span.start⟩ ++
        rendering s.text p.replacements n.span ++ back ∧
      readBlock? (rendering s.text p.replacements n.span) = some (us.map .run) ∧
      Statement.runAll? (.delegating steppedParameters steppedRouting.types "b" steppedMethods) us
        steppedFields = some o ∧ o.1 "x" = .ofNumber .int 14 := by
  obtain ⟨s, hparse, hcheck⟩ := JavaSource.exists_parse_of_check steppedSource
    (fun s => bodyStays s steppedStatements (fun site n => (site.below n).preorder.all fun t =>
        t.kind ≠ .updateExpression || t.node.namedChildren.head?.all (!·.isComment)
          && !Text.occursIn ['+', '+'] (s.textAt t).toList)
      && ((fieldsMoved (some stepNames) s).fields.get? "x").any (fun f =>
        f.accessors = some steppedRoute.accessors && f.field.type = "int")
      && (fieldsMoved (some stepNames) s).patch.toOption.isSome) (by decide +kernel)
  simp only [Bool.and_eq_true] at hcheck
  obtain ⟨⟨hbody, hfield⟩, hpatched⟩ := hcheck
  obtain ⟨body, declaration, n, hstays, hroutes, hread, hclear⟩ :=
    exists_body_of_bodyStays hparse hbody hfield
  obtain ⟨out, hout⟩ := exists_patchedSource (ofSource_fieldsMoved hparse) hpatched
  have hclearly : ClearlySigned s ((body.below declaration).below n) := by
    intro t ht hkind
    have htest := List.all_eq_true.mp hclear t ht
    simp only [hkind, ne_eq, not_true_eq_false, decide_false, Bool.false_or, Bool.and_eq_true,
      Bool.not_eq_true', Option.all_eq_true] at htest
    exact ⟨fun _ => htest.left, fun _ _ => htest.right⟩
  obtain ⟨p, back, us, hp, hback, hus, hruns⟩ := hstays.runAll?_patched
    (ofSource_fieldsMoved hparse) hout hroutes sayable_stepped hclearly hread (by decide)
    declares_stepped supplies_stepped
  have hrun : (Statement.runAll? (.inside steppedParameters steppedRouting.types)
      steppedStatements steppedFields).map (fun o => o.1 "x") = some (.ofNumber .int 14) := by
    decide +kernel
  obtain ⟨o, ho, hx⟩ := Option.map_eq_some_iff.mp hrun
  exact ⟨s, body, declaration, n, out, p, back, us, o, hparse, hstays, hread, hp, hout, hback, hus,
    hruns steppedFields o typed_stepped ho, hx⟩

def miscountedSource : String := "class A\x7bint x;void m(int a)\x7bx/*++*/--;\x7d\x7d"

-- The decrement has become a call of the method for increments.
theorem not_forall_runAll?_patched :
    ¬∀ (source : String) (d : Delegation) (body : Site) (declaration n : Node) (R : Routing)
      (out : String) (ts : List Statement) (methods : List Procedure) (indent : String)
      (parameters : String → Option Value), d.Stays body declaration n → d.OfSource source →
        d.patchedSource = .ok out → d.Routes declaration R → R.Sayable →
        n.phrase? = some (.block (ts.map .run)) → (∀ t ∈ ts, R.admitsStatement t = true) →
        R.Declares methods indent → R.Supplies parameters → ∃ p us, d.patch = .ok p ∧
          readBlock? (rendering d.source.text p.replacements n.span) = some (us.map .run) ∧
          ∀ s o, s.Typed R.types →
            Statement.runAll? (.inside parameters R.types) ts s = some o →
              Statement.runAll? (.delegating parameters R.types R.helper methods) us s =
                some o := by
  intro h
  obtain ⟨s, hparse, hcheck⟩ := JavaSource.exists_parse_of_check miscountedSource
    (fun s => bodyStays s [.evaluate (.step false false (.name "x"))] (fun _ n =>
        (fieldsMoved (some stepNames) s).patch.toOption.any fun (p : Patch) =>
          (List.range' n.span.start (n.span.length + 1)).flatMap
            (contribution s.text (outermost p.replacements n.span) n.span.stop
              (Replacement.shown s.text p.replacements)) = "\x7bb.postIncX();\x7d".toList)
      && ((fieldsMoved (some stepNames) s).fields.get? "x").any (fun f =>
        f.accessors = some steppedRoute.accessors && f.field.type = "int")
      && (fieldsMoved (some stepNames) s).patch.toOption.isSome) (by decide +kernel)
  simp only [Bool.and_eq_true] at hcheck
  obtain ⟨⟨hbody, hfield⟩, hpatched⟩ := hcheck
  obtain ⟨body, declaration, n, hstays, hroutes, hread, hshown⟩ :=
    exists_body_of_bodyStays hparse hbody hfield
  obtain ⟨out, hout⟩ := exists_patchedSource (ofSource_fieldsMoved hparse) hpatched
  obtain ⟨p, us, hp, hus, hruns⟩ := h miscountedSource _ body declaration n _ out _ _ _ _ hstays
    (ofSource_fieldsMoved hparse) hout hroutes sayable_stepped hread (by decide) declares_stepped
    supplies_stepped
  rw [hp] at hshown
  simp only [Except.toOption, Option.any_some, decide_eq_true_eq, ← rendering_eq] at hshown
  rw [show (fieldsMoved (some stepNames) s).source.text = s.text from rfl, hshown] at hus
  have hreads : readBlock? "\x7bb.postIncX();\x7d".toList =
      some ([Statement.evaluate (.call "b" "postIncX")].map .run) := by decide +kernel
  rw [hreads] at hus
  have hinjective : Function.Injective (List.map Procedure.Body.run) :=
    List.map_injective_iff.mpr fun _ _ h => Procedure.Body.run.inj h
  obtain rfl := hinjective (Option.some.inj hus)
  have hrun : (Statement.runAll? (.inside steppedParameters steppedRouting.types)
      [.evaluate (.step false false (.name "x"))] steppedFields).map (fun o => o.1 "x") =
        some (.ofNumber .int 2) := by decide +kernel
  obtain ⟨o, ho, hx⟩ := Option.map_eq_some_iff.mp hrun
  have hcall : (Statement.runAll? (.delegating steppedParameters steppedRouting.types "b"
      steppedMethods) [.evaluate (.call "b" "postIncX")] steppedFields).map (fun o => o.1 "x") ≠
        some (.ofNumber .int 2) := by decide +kernel
  exact hcall (Option.map_eq_some_iff.mpr ⟨o, hruns steppedFields o typed_stepped ho, hx⟩)

end Delegation

end ClassSplit
