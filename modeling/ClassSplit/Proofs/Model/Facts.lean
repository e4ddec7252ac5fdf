import ClassSplit.Proofs.Model.OfTree
import ClassSplit.Scope.Facts

/-!
What the facts of a source say about its methods. As long as the signatures of the methods are
different, the facts about a method are those below its declaration. Main statements:
`mem_callsOf_facts` and `mem_accessesOf_facts`.
-/

namespace ClassSplit

open Java

namespace NameMap

variable {α : Type} {entries : List (String × α)} {name : String} {value : α}

theorem get?_foldl_put (m : NameMap α) (h : name ∉ entries.map Prod.fst) :
    (entries.foldl (fun m entry => m.put entry.1 entry.2) m).get? name = m.get? name := by
  induction entries generalizing m with
  | nil => rfl
  | cons entry rest ih =>
    rw [List.map_cons, List.mem_cons, not_or] at h
    rw [List.foldl_cons, ih _ h.right, get?_put, if_neg h.left]

theorem get?_ofList (hnodup : (entries.map Prod.fst).Nodup) (h : (name, value) ∈ entries) :
    (ofList entries).get? name = some value := by
  rw [ofList]
  generalize empty = m
  induction entries generalizing m with
  | nil => cases h
  | cons entry rest ih =>
    rw [List.map_cons, List.nodup_cons] at hnodup
    cases List.mem_cons.mp h with
    | inl heq =>
      subst heq
      rw [List.foldl_cons, get?_foldl_put _ hnodup.left, get?_put, if_pos rfl]
    | inr hrest => exact ih hnodup.right hrest _

end NameMap

theorem Facts.namesOf_of_get? {table : FactTable} {m : Method} {names : NameSet}
    (h : table.get? m.signature = some names) : namesOf table m = names := by
  rw [namesOf, h]
  rfl

namespace JavaSource

variable {source : String} {wanted : Option String} {s : JavaSource} {m : Method}
  {declaration site : Site} {reference : FieldReference} {callee : String}

-- Every method of a class that has been read has a declaration.
theorem exists_declaration_of_parse (h : parse source wanted = .ok s) (hm : m ∈ s.model.methods) :
    ∃ declaration, s.member? m.span = some declaration := by
  obtain ⟨body, hbody, -⟩ := exists_primaryBody_of_parse h
  obtain ⟨member, hmember, -, rfl⟩ := hbody.methods m hm
  exact ⟨_, hbody.member?_eq hmember⟩

section Facts

variable (hdistinct : (s.model.properMethods.map (·.signature)).Nodup)
  (hm : m ∈ s.model.properMethods) (hdeclaration : s.member? m.span = some declaration)

include hdistinct hm hdeclaration

theorem get?_methodSites (names : Site → NameSet) :
    (NameMap.ofList (s.methodSites.map fun (m, site) => (m.signature, names site))).get?
      m.signature = some (names declaration) := by
  refine NameMap.get?_ofList ?_ ?_
  · rw [List.map_map]
    refine hdistinct.sublist (map_filterMap_sublist ?_ _)
    intro n entry hentry
    obtain ⟨-, -, rfl⟩ := Option.map_eq_some_iff.mp hentry
    rfl
  · refine List.mem_map.mpr ⟨(m, declaration), ?_, rfl⟩
    exact List.mem_filterMap.mpr ⟨m, hm, by rw [hdeclaration, Option.map_some]⟩

theorem callsOf_facts : s.facts.callsOf m = s.callsBelow declaration :=
  Facts.namesOf_of_get? (get?_methodSites hdistinct hm hdeclaration _)

theorem accessesOf_facts : s.facts.accessesOf m = s.accessesBelow declaration :=
  Facts.namesOf_of_get? (get?_methodSites hdistinct hm hdeclaration _)

-- A method calls what is called anywhere in its declaration.
theorem mem_callsOf_facts :
    callee ∈ s.facts.callsOf m ↔
      ∃ site ∈ declaration.preorder, s.memberCall? site = some callee := by
  rw [callsOf_facts hdistinct hm hdeclaration, callsBelow, NameSet.mem_ofList, List.mem_filterMap]

-- A method uses what is referred to anywhere in its declaration.
theorem mem_accessesOf_facts {name : String} :
    name ∈ s.facts.accessesOf m ↔
      ∃ site ∈ declaration.preorder, ∃ reference, s.fieldReference? site = some reference ∧
        reference.field.name = name := by
  rw [accessesOf_facts hdistinct hm hdeclaration, accessesBelow, NameSet.mem_ofList,
    List.mem_filterMap]
  simp only [Option.map_eq_some_iff]

end Facts

-- A reference is to the field that has its name.
theorem field?_of_fieldReference? (h : s.fieldReference? site = some reference) :
    s.model.field? reference.field.name = some reference.field := by
  have hfound {name : String} {field : Field} (hfield : s.model.field? name = some field) :
      s.model.field? field.name = some field := by
    have hname : field.name = name := by simpa using List.find?_some hfield
    rwa [hname]
  rw [fieldReference?] at h
  split at h
  case h_1 =>
    obtain ⟨field, hfield, h⟩ := Option.bind_eq_some_iff.mp h
    split_ifs at h
    cases h
    exact hfound hfield
  case h_2 =>
    obtain ⟨object, -, h⟩ := Option.bind_eq_some_iff.mp h
    obtain ⟨name, -, h⟩ := Option.bind_eq_some_iff.mp h
    split_ifs at h
    obtain ⟨field, hfield, h⟩ := Option.bind_eq_some_iff.mp h
    obtain ⟨form, -, h⟩ := Option.bind_eq_some_iff.mp h
    cases h
    exact hfound hfield
  case h_3 => cases h

end JavaSource

end ClassSplit
