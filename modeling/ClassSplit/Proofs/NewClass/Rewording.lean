import ClassSplit.Proofs.Delegation.Basic
import ClassSplit.Proofs.Model.Parameters
import ClassSplit.Proofs.NewClass.Splice

/-!
What the tokens of a moved method become. The text of its declaration changes in the tokens that are
meant and nowhere else: the name of a call that goes back, or the `this` in front of it, the name of
the class in front of a field that moves, and the word `private`. Main statement:
`Relocation.exists_reworded_of_parse`.
-/

namespace ClassSplit

open Java

theorem Java.Site.of_child? {s c : Site} {role : Role} (h : s.child? role = some c) :
    c ∈ s.children ∧ c.role = some role := by
  refine ⟨mem_children_of_child? h, ?_⟩
  obtain ⟨n, hn, rfl⟩ := Option.map_eq_some_iff.mp h
  have hrole : n.role = some role := by simpa using List.find?_some hn
  exact hrole

section References

variable {s : JavaSource} {site : Site} {callee : String} {reference : FieldReference}

theorem JavaSource.of_memberCall? (h : s.memberCall? site = some callee) :
    site.kind = .methodInvocation ∧
      (∃ name, site.child? .name = some name ∧ callee = s.textAt name) ∧
        ∀ object, site.child? .object = some object → object.kind = .thisWord := by
  rw [memberCall?] at h
  split at h
  case isTrue => cases h
  case isFalse hkind =>
    obtain ⟨name, hname, h⟩ := Option.bind_eq_some_iff.mp h
    have hchild : site.child? .name = some (site.below name) := by rw [Site.child?, hname]; rfl
    split at h
    case h_1 hnone =>
      cases h
      refine ⟨not_not.mp hkind, ⟨_, hchild, rfl⟩, fun object hobject => ?_⟩
      rw [Site.child?, hnone] at hobject
      cases hobject
    case h_2 this hthis =>
      split at h
      case isTrue hkinds =>
        cases h
        refine ⟨not_not.mp hkind, ⟨_, hchild, rfl⟩, fun object hobject => ?_⟩
        rw [Site.child?, hthis] at hobject
        cases hobject
        exact of_decide_eq_true (Bool.and_eq_true_iff.mp hkinds).left
      case isFalse => cases h

theorem JavaSource.kind_of_accessForm? {n : Node} {field : Field}
    (h : s.accessForm? site n field = some .classQualified) : n.kind = .identifier := by
  rw [accessForm?] at h
  split at h
  case h_1 =>
    split at h
    all_goals cases h
  case h_2 hkind => exact hkind
  case h_3 =>
    obtain ⟨outer, -, h⟩ := Option.bind_eq_some_iff.mp h
    obtain ⟨inner, -, h⟩ := Option.bind_eq_some_iff.mp h
    split at h
    all_goals cases h
  case h_4 => cases h

theorem JavaSource.of_fieldReference? (h : s.fieldReference? site = some reference) :
    reference.site = site ∧ site.kind ≠ .methodInvocation ∧
      (reference.form = .classQualified → ∀ object, site.child? .object = some object →
        object.kind = .identifier) := by
  rw [fieldReference?] at h
  split at h
  case h_1 hkind =>
    obtain ⟨field, -, h⟩ := Option.bind_eq_some_iff.mp h
    split_ifs at h
    cases h
    exact ⟨rfl, by rw [hkind]; simp, fun hform => by cases hform⟩
  case h_2 hkind =>
    obtain ⟨object, hobject, h⟩ := Option.bind_eq_some_iff.mp h
    obtain ⟨name, -, h⟩ := Option.bind_eq_some_iff.mp h
    split_ifs at h
    obtain ⟨field, -, h⟩ := Option.bind_eq_some_iff.mp h
    obtain ⟨form, hform, h⟩ := Option.bind_eq_some_iff.mp h
    cases h
    refine ⟨rfl, by rw [hkind]; simp, ?_⟩
    rintro rfl object' hobject'
    rw [Site.child?, hobject] at hobject'
    cases hobject'
    exact kind_of_accessForm? hform
  case h_3 => cases h

end References

namespace Relocation

variable {r : Relocation} {m : Method} {declaration site t : Site} {e : TokenEdit}
  {edits : List TokenEdit} {w w' : Option String}

-- What a token of a moved declaration becomes; without a text it is removed.
inductive Becomes (r : Relocation) (m : Method) (declaration : Site) : Site → Option String → Prop
  | name {call name : Site} {callee : String} (mem : call ∈ declaration.preorder)
      (calls : r.source.memberCall? call = some callee)
      (back : r.goesBack callee call declaration = .ok true) (bare : call.child? .object = none)
      (named : call.child? .name = some name) :
      Becomes r m declaration name (some (r.source.model.name ++ "." ++ r.source.textAt name))
  | receiver {call this : Site} {callee : String} (mem : call ∈ declaration.preorder)
      (calls : r.source.memberCall? call = some callee)
      (back : r.goesBack callee call declaration = .ok true)
      (through : call.child? .object = some this) :
      Becomes r m declaration this (some r.source.model.name)
  | className {site qualifier : Site} {reference : FieldReference}
      (mem : site ∈ declaration.preorder)
      (refers : r.source.fieldReference? site = some reference)
      (moves : reference.field.name ∈ r.fields) (form : reference.form = .classQualified)
      (qualified : site.child? .object = some qualifier) :
      Becomes r m declaration qualifier (some r.newClass)
  | outerName {site this qualifier : Site} {reference : FieldReference}
      (mem : site ∈ declaration.preorder)
      (refers : r.source.fieldReference? site = some reference)
      (moves : reference.field.name ∈ r.fields) (form : reference.form = .this)
      (through : site.child? .object = some this) (access : this.kind = .fieldAccess)
      (qualified : this.child? .object = some qualifier) (kind : qualifier.kind = .identifier) :
      Becomes r m declaration qualifier (some r.newClass)
  | privacy {mods word : Node} (isPrivate : m.isPrivate = true)
      (modified : JavaSource.modifiersNode? declaration.node = some mods)
      (mem : word ∈ mods.children) (kind : word.kind = .token "private") :
      Becomes r m declaration ((declaration.below mods).below word) none

-- The new text of a token that becomes another, by what it is.
def newText (r : Relocation) (t : Site) : Option String :=
  match t.kind, t.role with
  | .thisWord, _ => some r.source.model.name
  | .identifier, some .name => some (r.source.model.name ++ "." ++ r.source.textAt t)
  | .identifier, _ => some r.newClass
  | _, _ => none

theorem kind_of_name {call name : Site} {callee : String}
    (hsound : declaration.node.Sound r.source.text) (hcall : call ∈ declaration.preorder)
    (hcalls : r.source.memberCall? call = some callee) (hname : call.child? .name = some name) :
    name.kind = .identifier := by
  obtain ⟨hchild, hrole⟩ := Site.of_child? hname
  obtain ⟨n, hn, rfl⟩ := Site.mem_children.mp hchild
  have hkind : call.node.kind = .methodInvocation := (JavaSource.of_memberCall? hcalls).left
  have hshape := (Site.sound_of_mem_preorder hsound hcall).shape (List.ne_nil_of_mem hn)
  rw [hkind] at hshape
  exact hshape n hn hrole

namespace Becomes

theorem mem_preorder (h : r.Becomes m declaration t w) : t ∈ declaration.preorder := by
  cases h with
  | name mem _ _ _ named =>
    exact Site.mem_preorder_trans mem
      (Site.mem_preorder_of_mem_children (Site.of_child? named).left)
  | receiver mem _ _ through =>
    exact Site.mem_preorder_trans mem
      (Site.mem_preorder_of_mem_children (Site.of_child? through).left)
  | className mem _ _ _ qualified =>
    exact Site.mem_preorder_trans mem
      (Site.mem_preorder_of_mem_children (Site.of_child? qualified).left)
  | outerName mem _ _ _ through _ qualified =>
    have hthis := Site.mem_preorder_trans mem
      (Site.mem_preorder_of_mem_children (Site.of_child? through).left)
    exact Site.mem_preorder_trans hthis
      (Site.mem_preorder_of_mem_children (Site.of_child? qualified).left)
  | privacy _ modified mem =>
    have hmods := Site.mem_children.mpr ⟨_, List.mem_of_find?_eq_some modified, rfl⟩
    exact Site.mem_preorder_trans (Site.mem_preorder_of_mem_children hmods)
      (Site.mem_preorder_of_mem_children (Site.mem_children.mpr ⟨_, mem, rfl⟩))

theorem kind_newText (hsound : declaration.node.Sound r.source.text)
    (h : r.Becomes m declaration t w) :
    (t.kind = .identifier ∨ t.kind = .thisWord ∨ t.kind = .token "private") ∧
      w = r.newText t := by
  cases h with
  | name mem calls back bare named =>
    have hkind := kind_of_name hsound mem calls named
    have hrole := (Site.of_child? named).right
    exact ⟨.inl hkind, by simp [newText, hkind, hrole]⟩
  | receiver mem calls back through =>
    have hkind := (JavaSource.of_memberCall? calls).right.right _ through
    exact ⟨.inr (.inl hkind), by simp [newText, hkind]⟩
  | className mem refers moves form qualified =>
    have hkind := (JavaSource.of_fieldReference? refers).right.right form _ qualified
    have hrole := (Site.of_child? qualified).right
    exact ⟨.inl hkind, by simp [newText, hkind, hrole]⟩
  | outerName mem refers moves form through access qualified kind =>
    have hrole := (Site.of_child? qualified).right
    exact ⟨.inl kind, by simp [newText, kind, hrole]⟩
  | @privacy mods word isPrivate modified mem kind =>
    have hkind : ((declaration.below mods).below word).kind = .token "private" := kind
    exact ⟨.inr (.inr kind), by simp [newText, hkind]⟩

theorem unique (hsound : declaration.node.Sound r.source.text)
    (h : r.Becomes m declaration t w) (h' : r.Becomes m declaration t w') : w = w' :=
  (h.kind_newText hsound).right.trans (h'.kind_newText hsound).right.symm

theorem isWord (hsound : declaration.node.Sound r.source.text) (h : r.Becomes m declaration t w)
    {kind : Kind} (hname : kind.name = t.kind.name) : kind.isWord = true := by
  obtain hkind | hkind | hkind := (h.kind_newText hsound).left
  all_goals
    rw [hkind] at hname
    cases kind
    all_goals first | rfl | simp [Kind.name] at hname

theorem mem_leaves (hsound : declaration.node.Sound r.source.text)
    (h : r.Becomes m declaration t w) : t ∈ declaration.leaves := by
  have hnode : t.node ∈ declaration.node.preorder :=
    Site.map_node_preorder declaration ▸ List.mem_map_of_mem h.mem_preorder
  exact Site.mem_leaves.mpr
    ⟨h.mem_preorder, hsound.children_of_isWord hnode (h.isWord hsound rfl)⟩

end Becomes

theorem mem_privacyEdits : e ∈ privacyEdits m declaration ↔ m.isPrivate = true ∧
    ∃ mods, JavaSource.modifiersNode? declaration.node = some mods ∧
      ∃ word ∈ mods.children, word.kind = .token "private" ∧
        ⟨word.span, .token "private", none⟩ = e := by
  rw [privacyEdits]
  cases hmods : JavaSource.modifiersNode? declaration.node with
  | none => simp
  | some mods =>
    cases hprivate : m.isPrivate with
    | false => simp
    | true => simp [and_assoc]

theorem qualify?_eq_some {call : Site} {callee : String} :
    r.qualify? call callee = some e ↔
      (∃ this, call.child? .object = some this ∧
        ⟨this.span, .thisWord, some r.source.model.name⟩ = e) ∨
      (call.child? .object = none ∧ ∃ name, call.child? .name = some name ∧
        ⟨name.span, .identifier, some (r.source.model.name ++ "." ++ callee)⟩ = e) := by
  rw [qualify?]
  cases hobject : call.child? .object with
  | none => simp
  | some this => simp

theorem qualifier?_eq_some {reference : FieldReference} :
    qualifier? reference = some t ↔ t.kind = .identifier ∧
      ((reference.form = .classQualified ∧ reference.site.child? .object = some t) ∨
        (reference.form = .this ∧ ∃ this, reference.site.child? .object = some this ∧
          this.kind = .fieldAccess ∧ this.child? .object = some t)) := by
  rw [qualifier?, Option.filter_eq_some_iff, and_comm, decide_eq_true_eq]
  refine and_congr_right fun _ => ?_
  cases reference.form with
  | bare => simp
  | this => simp [Option.bind_eq_some_iff, and_assoc]
  | classQualified => simp

theorem mem_siteEdits (h : r.siteEdits declaration site = .ok edits) : e ∈ edits ↔
    (∃ callee, r.source.memberCall? site = some callee ∧
      r.goesBack callee site declaration = .ok true ∧ r.qualify? site callee = some e) ∨
    (∃ reference name, r.source.fieldReference? site = some reference ∧
      reference.field.name ∈ r.fields ∧ qualifier? reference = some name ∧
        ⟨name.span, .identifier, some r.newClass⟩ = e) := by
  rw [siteEdits] at h
  cases hcall : r.source.memberCall? site with
  | some callee =>
    have hnone : r.source.fieldReference? site = none := by
      refine Option.eq_none_iff_forall_ne_some.mpr fun reference hreference => ?_
      exact (JavaSource.of_fieldReference? hreference).right.left
        (JavaSource.of_memberCall? hcall).left
    simp only [hcall] at h
    obtain ⟨back, hback, h⟩ := bind_eq_ok.mp h
    cases back with
    | false =>
      cases h
      simp [hnone, hback]
    | true =>
      cases h
      simp [hnone, hback]
  | none =>
    simp only [hcall] at h
    cases hreference : r.source.fieldReference? site with
    | none =>
      rw [hreference] at h
      cases h
      simp
    | some reference =>
      simp only [hreference] at h
      split_ifs at h with hmoves
      all_goals cases h
      · simp [List.contains_iff_mem.mp hmoves]
      · have hstays : reference.field.name ∉ r.fields := fun hmem =>
          hmoves (List.contains_iff_mem.mpr hmem)
        simp [hstays]

theorem mem_flatten_siteEdits {found : List (List TokenEdit)}
    (h : declaration.preorder.mapM (r.siteEdits declaration) = .ok found) : e ∈ found.flatten ↔
      ∃ site ∈ declaration.preorder, ∃ edits, r.siteEdits declaration site = .ok edits ∧
        e ∈ edits := by
  have hall := forall₂_of_mapM_eq_ok h
  rw [List.mem_flatten]
  constructor
  case mp =>
    rintro ⟨edits, hedits, he⟩
    obtain ⟨site, hsite, hfound⟩ := exists_mem_of_forall₂ hall hedits
    exact ⟨site, hsite, edits, hfound, he⟩
  case mpr =>
    rintro ⟨site, hsite, edits, hfound, he⟩
    obtain ⟨edits', hedits', hfound'⟩ := exists_mem_of_forall₂ hall.flip hsite
    cases hfound.symm.trans hfound'
    exact ⟨edits, hedits', he⟩

theorem exists_becomes_of_siteEdits (hsound : declaration.node.Sound r.source.text)
    (hsite : site ∈ declaration.preorder) (h : r.siteEdits declaration site = .ok edits)
    (he : e ∈ edits) : ∃ t w, r.Becomes m declaration t w ∧ e = ⟨t.span, t.kind, w⟩ := by
  obtain ⟨callee, hcall, hback, hqualify⟩ | ⟨reference, name, hrefers, hmoves, hname, rfl⟩ :=
    (mem_siteEdits h).mp he
  · obtain ⟨-, ⟨name, hnamed, rfl⟩, hthis⟩ := JavaSource.of_memberCall? hcall
    obtain ⟨this, hobject, rfl⟩ | ⟨hbare, name', hnamed', rfl⟩ := qualify?_eq_some.mp hqualify
    · exact ⟨this, _, .receiver hsite hcall hback hobject, by rw [hthis this hobject]⟩
    · cases hnamed.symm.trans hnamed'
      have hkind := kind_of_name hsound hsite hcall hnamed
      exact ⟨name, _, .name hsite hcall hback hbare hnamed, by rw [hkind]⟩
  · obtain ⟨hkind, hform⟩ := qualifier?_eq_some.mp hname
    rw [(JavaSource.of_fieldReference? hrefers).left] at hform
    obtain ⟨hform, hobject⟩ | ⟨hform, this, hthis, haccess, hobject⟩ := hform
    · exact ⟨name, _, .className hsite hrefers hmoves hform hobject, by rw [hkind]⟩
    · exact ⟨name, _, .outerName hsite hrefers hmoves hform hthis haccess hobject hkind,
        by rw [hkind]⟩

-- Whatever becomes of a token is asked for by the modifiers or by some site.
theorem Becomes.mem_edits (hsound : declaration.node.Sound r.source.text)
    (h : r.Becomes m declaration t w) : ⟨t.span, t.kind, w⟩ ∈ privacyEdits m declaration ∨
      ∃ site ∈ declaration.preorder, ∀ edits, r.siteEdits declaration site = .ok edits →
        ⟨t.span, t.kind, w⟩ ∈ edits := by
  cases h with
  | name mem calls back bare named =>
    obtain ⟨-, ⟨name, hnamed, rfl⟩, -⟩ := JavaSource.of_memberCall? calls
    cases named.symm.trans hnamed
    have hkind := kind_of_name hsound mem calls named
    refine .inr ⟨_, mem, fun edits hedits => (mem_siteEdits hedits).mpr ?_⟩
    exact .inl ⟨_, calls, back, qualify?_eq_some.mpr (.inr ⟨bare, t, named, by rw [hkind]⟩)⟩
  | receiver mem calls back through =>
    have hkind := (JavaSource.of_memberCall? calls).right.right _ through
    refine .inr ⟨_, mem, fun edits hedits => (mem_siteEdits hedits).mpr ?_⟩
    exact .inl ⟨_, calls, back, qualify?_eq_some.mpr (.inl ⟨t, through, by rw [hkind]⟩)⟩
  | className mem refers moves form qualified =>
    obtain ⟨hreference, -, hkinds⟩ := JavaSource.of_fieldReference? refers
    have hkind := hkinds form _ qualified
    have hnamed := qualifier?_eq_some.mpr ⟨hkind, .inl ⟨form, hreference ▸ qualified⟩⟩
    refine .inr ⟨_, mem, fun edits hedits => (mem_siteEdits hedits).mpr ?_⟩
    exact .inr ⟨_, t, refers, moves, hnamed, by rw [hkind]⟩
  | outerName mem refers moves form through access qualified kind =>
    have hreference := (JavaSource.of_fieldReference? refers).left
    have hnamed := qualifier?_eq_some.mpr
      ⟨kind, .inr ⟨form, _, hreference ▸ through, access, qualified⟩⟩
    refine .inr ⟨_, mem, fun edits hedits => (mem_siteEdits hedits).mpr ?_⟩
    exact .inr ⟨_, t, refers, moves, hnamed, by rw [kind]⟩
  | privacy isPrivate modified mem kind =>
    exact .inl (mem_privacyEdits.mpr ⟨isPrivate, _, modified, _, mem, kind, by rw [← kind]; rfl⟩)

-- The edits are those of the tokens that become others.
theorem mem_tokenEdits (hsound : declaration.node.Sound r.source.text)
    (h : r.tokenEdits m declaration = .ok edits) :
    e ∈ edits ↔ ∃ t w, r.Becomes m declaration t w ∧ e = ⟨t.span, t.kind, w⟩ := by
  obtain ⟨found, hfound, heq⟩ := bind_eq_ok.mp h
  cases heq
  rw [List.mem_append, mem_flatten_siteEdits hfound]
  constructor
  case mp =>
    rintro (he | ⟨site, hsite, edits, hedits, he⟩)
    · obtain ⟨hprivate, mods, hmods, word, hword, hkind, rfl⟩ := mem_privacyEdits.mp he
      exact ⟨_, _, .privacy hprivate hmods hword hkind, by rw [← hkind]; rfl⟩
    · exact exists_becomes_of_siteEdits hsound hsite hedits he
  case mpr =>
    rintro ⟨t, w, hbecomes, rfl⟩
    obtain he | ⟨site, hsite, hasked⟩ := hbecomes.mem_edits hsound
    · exact .inl he
    · obtain ⟨edits, -, hedits⟩ := exists_mem_of_forall₂ (forall₂_of_mapM_eq_ok hfound).flip hsite
      exact .inr ⟨site, hsite, edits, hedits, hasked edits hedits⟩

-- A declaration ends with something else than its modifiers.
theorem Becomes.getLast?_ne (hsound : declaration.node.Sound r.source.text)
    (hkind : declaration.node.kind = .methodDeclaration ∨
      declaration.node.kind = .constructorDeclaration)
    (h : r.Becomes m declaration t none) :
    (declaration.leaves.map (·.span)).getLast? ≠ some t.span := by
  intro hlast
  obtain ⟨last, hleaf, hstop⟩ := Site.exists_getLast?_leaves hsound
  rw [List.getLast?_map, hleaf, Option.map_some, Option.some.injEq] at hlast
  cases h with
  | @privacy mods word isPrivate modified mem kind =>
    have hmods := List.mem_of_find?_eq_some modified
    have hmodsKind : mods.kind = .modifiers := by simpa using List.find?_some modified
    obtain ⟨n, hn⟩ := Option.isSome_iff_exists.mp
      (List.getLast?_isSome.mpr (List.ne_nil_of_mem hmods))
    have hend := hsound.stop_of_getLast? hn
    have hmem := List.mem_of_getLast? hn
    have hlt := (hsound.of_mem_children hmem).nonempty
    have hwithin := Span.covers_iff.mp (hsound.covers_child hmods)
    have hwithinMods := Span.covers_iff.mp ((hsound.of_mem_children hmods).covers_child mem)
    obtain heq | hbefore | hbehind := hsound.eq_or_beside hmods hmem
    · have hbody := (hsound.parameterized hkind).last n hn
      rw [← heq, hmodsKind] at hbody
      cases hbody
    · have hstops : word.span.stop = declaration.node.span.stop :=
        (congrArg Span.stop hlast).symm.trans hstop
      omega
    · have := (hsound.of_mem_children hmods).nonempty
      omega

-- What happens to the text of a moved declaration. A token that is removed takes the gap behind it
-- along, up to the next token or comment.
inductive Rewrites (r : Relocation) (m : Method) (declaration : Site) : Replacement → Prop
  | word {t : Site} {text : String} (becomes : r.Becomes m declaration t (some text)) :
      Rewrites r m declaration (.ofText t.span text)
  | gone {t next : Site} (becomes : r.Becomes m declaration t none)
      (follows : [t, next] <:+: declaration.leaves) :
      Rewrites r m declaration (.ofText ⟨t.span.start, next.span.start⟩ "")

section Edits

variable (hsound : declaration.node.Sound r.source.text)
  (hkind : declaration.node.kind = .methodDeclaration ∨
    declaration.node.kind = .constructorDeclaration)
  (hedits : r.tokenEdits m declaration = .ok edits)

include hsound hedits

theorem eq_of_mem_tokenEdits {e' : TokenEdit} (he : e ∈ edits) (he' : e' ∈ edits)
    (horigin : e.origin = e'.origin) : e = e' := by
  obtain ⟨t, w, h, rfl⟩ := (mem_tokenEdits hsound hedits).mp he
  obtain ⟨t', w', h', rfl⟩ := (mem_tokenEdits hsound hedits).mp he'
  obtain rfl := Site.eq_of_span_eq_of_leaves hsound (h.mem_leaves hsound) (h'.mem_leaves hsound)
    horigin
  rw [h.unique hsound h']

theorem find?_tokenEdits (ht : t ∈ declaration.leaves) :
    edits.find? (·.origin = t.span) = some e ↔
      ∃ w, r.Becomes m declaration t w ∧ e = ⟨t.span, t.kind, w⟩ := by
  constructor
  case mp =>
    intro hfind
    have htest := List.find?_some hfind
    have horigin : e.origin = t.span := of_decide_eq_true htest
    obtain ⟨t', w, h, rfl⟩ := (mem_tokenEdits hsound hedits).mp (List.mem_of_find?_eq_some hfind)
    obtain rfl := Site.eq_of_span_eq_of_leaves hsound (h.mem_leaves hsound) ht horigin
    exact ⟨w, h, rfl⟩
  case mpr =>
    rintro ⟨w, h, rfl⟩
    have hmem : ⟨t.span, t.kind, w⟩ ∈ edits := (mem_tokenEdits hsound hedits).mpr ⟨t, w, h, rfl⟩
    cases hfind : edits.find? (·.origin = t.span) with
    | none => exact absurd (decide_eq_true rfl) (List.find?_eq_none.mp hfind _ hmem)
    | some e =>
      have htest := List.find?_some hfind
      have horigin : e.origin = t.span := of_decide_eq_true htest
      rw [eq_of_mem_tokenEdits hsound hedits (List.mem_of_find?_eq_some hfind) hmem horigin]

include hkind

theorem fits_of_mem_tokenEdits (he : e ∈ edits) : e.Fits declaration.leaves := by
  obtain ⟨t, w, h, rfl⟩ := (mem_tokenEdits hsound hedits).mp he
  refine ⟨fun kind => h.isWord hsound, fun t' ht' hspan => ?_, ?_⟩
  · rw [Site.eq_of_span_eq_of_leaves hsound ht' (h.mem_leaves hsound) hspan]
  · rintro rfl
    exact h.getLast?_ne hsound hkind

-- What the edits do to the text is what is meant, in whichever order they are carried out.
theorem mem_replacements_iff {c : Replacement} :
    c ∈ TokenEdit.replacements edits (declaration.leaves.map (·.span)) ↔
      r.Rewrites m declaration c := by
  rw [TokenEdit.mem_replacements]
  constructor
  case mp =>
    rintro ⟨front, s, behind, e, hsplit, hfind, rfl⟩
    obtain ⟨front, rest, hleaves, rfl, hrest⟩ := List.map_eq_append_iff.mp hsplit
    obtain ⟨t, back, rfl, rfl, rfl⟩ := List.map_eq_cons_iff.mp hrest
    have ht : t ∈ declaration.leaves := by simp [hleaves]
    obtain ⟨w, h, rfl⟩ := (find?_tokenEdits hsound hedits ht).mp hfind
    cases w with
    | some text => exact .word h
    | none =>
      cases back with
      | nil =>
        have hlast := h.getLast?_ne hsound hkind
        simp [hleaves] at hlast
      | cons next back => exact .gone h ⟨front, back, by simp [hleaves]⟩
  case mpr =>
    intro hrewrites
    cases hrewrites with
    | @word t text becomes =>
      have ht := becomes.mem_leaves hsound
      obtain ⟨front, back, hleaves⟩ := List.append_of_mem ht
      exact ⟨_, _, _, _, by rw [hleaves, List.map_append, List.map_cons],
        (find?_tokenEdits hsound hedits ht).mpr ⟨_, becomes, rfl⟩, rfl⟩
    | @gone t next becomes follows =>
      have ht := becomes.mem_leaves hsound
      obtain ⟨front, back, hleaves⟩ := follows
      exact ⟨front.map (·.span), t.span, (next :: back).map (·.span), _, by simp [← hleaves],
        (find?_tokenEdits hsound hedits ht).mpr ⟨_, becomes, rfl⟩, rfl⟩

end Edits

-- The text of a moved declaration: its own with the changes that are meant.
structure Reworded (r : Relocation) (m : Method) (declaration : Site) (text : List Char) :
    Prop where
  tokens : ∀ t w, r.Becomes m declaration t w → t ∈ declaration.leaves
  exists_changes : ∃ changes, (∀ c, c ∈ changes ↔ r.Rewrites m declaration c) ∧
    Span.InOrder declaration.span.start declaration.span.stop (changes.map (·.span)) ∧
      Patch.splice r.source.text declaration.span.start declaration.span.stop changes = .ok text

theorem exists_reworded (hsound : declaration.node.Sound r.source.text)
    (hkind : declaration.node.kind = .methodDeclaration ∨
      declaration.node.kind = .constructorDeclaration)
    (hedits : r.tokenEdits m declaration = .ok edits) :
    ∃ text, r.editedText declaration edits = .ok text ∧
      r.Reworded m declaration text.toList := by
  obtain ⟨text, htext, hsplice⟩ := splice_of_editedText hsound
    (fun e he => fits_of_mem_tokenEdits hsound hkind hedits he)
    (fun e he e' he' => eq_of_mem_tokenEdits hsound hedits he he')
  exact ⟨text, htext, fun t w h => h.mem_leaves hsound, _,
    fun c => mem_replacements_iff hsound hkind hedits,
    TokenEdit.inOrder_replacements (Site.inOrder_leaves hsound), hsplice⟩

theorem exists_of_siteEdits_eq_error {error : ExtractionError}
    (h : r.siteEdits declaration site = .error error) :
    ∃ callee, r.source.memberCall? site = some callee ∧
      r.goesBack callee site declaration = .error error := by
  rw [siteEdits] at h
  split at h
  case h_1 callee hcall =>
    obtain h | ⟨back, -, h⟩ := bind_eq_error.mp h
    · exact ⟨callee, hcall, h⟩
    · split at h
      all_goals cases h
  case h_2 =>
    split at h
    case h_1 => cases h
    case h_2 =>
      split at h
      all_goals cases h

theorem exists_declaration_of_mem_methods {body : Site} (h : r.source.PrimaryBody body)
    (hm : m ∈ r.source.model.methods) :
    ∃ declaration, r.source.member? m.span = some declaration ∧ declaration.span = m.span ∧
      declaration.node.Sound r.source.text ∧ (declaration.node.kind = .methodDeclaration ∨
        declaration.node.kind = .constructorDeclaration) := by
  obtain ⟨member, hmember, hkind, hread⟩ := h.methods m hm
  have hspan : m.span = member.span := by rw [hread]; rfl
  exact ⟨body.below member, hspan ▸ h.member?_eq hmember, hspan.symm,
    (h.of_mem_children (List.mem_filter.mp hmember).left).left, hkind⟩

variable {source : String} {wanted : Option String}

-- A method moves as it is written apart from the tokens that are meant, unless it calls a method of
-- which it is not known whether it moves.
theorem exists_reworded_of_parse (h : JavaSource.parse source wanted = .ok r.source)
    (hm : m ∈ r.source.model.methods) :
    ∃ declaration, r.source.member? m.span = some declaration ∧ declaration.span = m.span ∧
      ((∃ call ∈ declaration.preorder, ∃ callee e, r.source.memberCall? call = some callee ∧
          r.goesBack callee call declaration = .error e ∧ r.moveMethod m = .error e) ∨
        ∃ text, r.Reworded m declaration text ∧
          r.moveMethod m = .ok ⟨m.signature, String.ofList (Text.dedentBlock
            ((Text.leadingIndent r.source.text m.span.start).getD [] ++ text))⟩) := by
  obtain ⟨body, hbody, -⟩ := JavaSource.exists_primaryBody_of_parse h
  obtain ⟨declaration, hfound, hspan, hsound, hkind⟩ := exists_declaration_of_mem_methods hbody hm
  refine ⟨declaration, hfound, hspan, ?_⟩
  cases hedits : r.tokenEdits m declaration with
  | error e =>
    obtain hfails | ⟨_, -, hfails⟩ := bind_eq_error.mp hedits
    · obtain ⟨call, hcall, hfails⟩ := exists_of_mapM_eq_error hfails
      obtain ⟨callee, hcallee, hback⟩ := exists_of_siteEdits_eq_error hfails
      refine .inl ⟨call, hcall, callee, e, hcallee, hback, ?_⟩
      simp only [moveMethod, hfound, hedits]
      rfl
    · cases hfails
  | ok edits =>
    obtain ⟨text, htext, hreworded⟩ := exists_reworded hsound hkind hedits
    refine .inr ⟨text.toList, hreworded, ?_⟩
    simp only [moveMethod, hfound, hedits, bind, Except.bind, htext]
    rfl

-- A private method that calls a method that stays twice and reads a static field that moves.
def qualifyingSource : String :=
  "class A\x7bstatic int F;private int m()\x7breturn this.g()+g()+A.F;\x7d"
    ++ "int g()\x7breturn 1;\x7d\x7d"

def relocationOfM (s : JavaSource) : Relocation :=
  ⟨s, "B", s.model.methods.filter (·.name == "m"), ["F"]⟩

theorem exists_reworded_of_parse_qualifying : ∃ s, JavaSource.parse qualifyingSource none = .ok s ∧
    ∃ m ∈ s.model.methods, ∃ declaration text,
      (relocationOfM s).Reworded m declaration text ∧ (relocationOfM s).moveMethod m =
        .ok ⟨"m()", "int m()\x7breturn A.g()+A.g()+B.F;\x7d"⟩ := by
  obtain ⟨s, hparse, hcheck⟩ := JavaSource.exists_parse_of_check qualifyingSource
    (fun s => Decidable.decide (∃ m ∈ s.model.methods, ((relocationOfM s).moveMethod m).toOption =
      some ⟨"m()", "int m()\x7breturn A.g()+A.g()+B.F;\x7d"⟩))
    (by decide +kernel)
  obtain ⟨m, hm, hmoved⟩ := of_decide_eq_true hcheck
  obtain ⟨declaration, -, -, ⟨_, -, _, e, -, -, hfails⟩ | ⟨text, hreworded, hsource⟩⟩ :=
    exists_reworded_of_parse (r := relocationOfM s) hparse hm
  · rw [hfails] at hmoved
    cases hmoved
  · refine ⟨s, hparse, m, hm, declaration, text, hreworded, ?_⟩
    rw [hsource] at hmoved ⊢
    exact congrArg Except.ok (Option.some.inj hmoved)

end Relocation

end ClassSplit
