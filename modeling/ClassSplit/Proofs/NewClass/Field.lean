import ClassSplit.NewClass.Field

/-!
The fields of a new class. Each field that moves is declared once, in the order in which they are
given; a static field as it is, any other with the accessors that it needs.
-/

namespace ClassSplit

namespace NamedAccessor

variable {text : List Char} {moved : List Method} {taken : List String} {f : Field}

@[simp] theorem form_choose (form : AccessorForm) : (choose text moved taken f form).form = form := by
  simp only [choose]
  split
  all_goals rfl

@[simp] theorem map_form_chooseAll (forms : List AccessorForm) :
    (chooseAll text moved taken f forms).map (·.form) = forms := by
  induction forms generalizing taken with
  | nil => rfl
  | cons form forms ih => rw [chooseAll, List.map_cons, form_choose, ih]

end NamedAccessor

namespace MovedField

variable {text : List Char} {moved : List Method} {indent : String} {taken : List String}
  {fields : List Field} {f : MovedField}

theorem map_field_ofFields (text : List Char) (moved : List Method) (indent : String)
    (taken : List String) (fields : List Field) :
    (ofFields text moved indent taken fields).map (·.field) = fields := by
  induction fields generalizing taken with
  | nil => rfl
  | cons f fields ih =>
    rw [ofFields]
    split
    case isTrue => rw [List.map_cons, ih]; rfl
    case isFalse => rw [List.map_cons, ih]; rfl

-- How the new class declares a field.
inductive Declared (indent : String) : MovedField → Prop
  | ofStatic (f : Field) (isStatic : f.isStatic = true) : Declared indent (.ofStatic f)
  | ofInstance (f : Field) (named : List NamedAccessor) (isInstance : f.isStatic = false)
      (forms : named.map (·.form) = AccessorForm.needed f) :
      Declared indent (.ofInstance indent f named)

theorem declared_of_mem_ofFields (h : f ∈ ofFields text moved indent taken fields) :
    Declared indent f := by
  induction fields generalizing taken with
  | nil => cases h
  | cons g fields ih =>
    rw [ofFields] at h
    split at h
    case isTrue hstatic =>
      obtain rfl | hmem := List.mem_cons.mp h
      · exact .ofStatic g hstatic
      · exact ih hmem
    case isFalse hinstance =>
      obtain rfl | hmem := List.mem_cons.mp h
      · exact .ofInstance g _ (by simpa using hinstance) (NamedAccessor.map_form_chooseAll _)
      · exact ih hmem

theorem Declared.isSome_accessors (h : Declared indent f) :
    f.accessors.isSome = !f.field.isStatic := by
  cases h with
  | ofStatic g isStatic => rw [MovedField.ofStatic, isStatic]; rfl
  | ofInstance g named isInstance => rw [MovedField.ofInstance, isInstance]; rfl

-- A field that is no constant and holds a number can be increased and decreased by a call.
theorem Declared.isSome_increments {accessors : Accessors} (h : Declared indent f)
    (haccessors : f.accessors = some accessors) (hfinal : f.field.isFinal = false)
    (harithmetic : f.field.isArithmetic = true) : accessors.increments.isSome = true := by
  cases h with
  | ofStatic => cases haccessors
  | ofInstance g named isInstance forms =>
    cases haccessors
    have hneeded : AccessorForm.needed g = AccessorForm.getter ::
        (if g.keepsFinal then [] else [.setter])
          ++ [.increment, .postIncrement, .decrement, .postDecrement] := by
      have hcondition : (!g.isFinal && g.isArithmetic) = true := by
        rw [show g.isFinal = false from hfinal, show g.isArithmetic = true from harithmetic]
        rfl
      rw [AccessorForm.needed, if_pos hcondition]
    have hnamed (form : AccessorForm) (hform : form ∈ AccessorForm.needed g) :
        ∃ named', (named.find? (·.form = form)) = some named' := by
      rw [← forms] at hform
      obtain ⟨a, ha, rfl⟩ := List.mem_map.mp hform
      exact Option.isSome_iff_exists.mp (List.find?_isSome.mpr ⟨a, ha, by simp⟩)
    obtain ⟨a, ha⟩ := hnamed .increment (by simp [hneeded])
    obtain ⟨b, hb⟩ := hnamed .postIncrement (by simp [hneeded])
    obtain ⟨c, hc⟩ := hnamed .decrement (by simp [hneeded])
    obtain ⟨e, he⟩ := hnamed .postDecrement (by simp [hneeded])
    simp [Accessors.ofNamed, ha, hb, hc, he]

end MovedField

end ClassSplit
