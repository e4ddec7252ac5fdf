import ClassSplit.Proofs.Settings.Redaction
import Mathlib.Data.List.Forall2

/-!
What the readers of structured data tell of the strings in it. Data that differ in strings alone are
read side by side; the errors are compared by what is shown of them. Main statements:
`saidAlike_unexpected` for what is found in the place of something else, `agreed_asVariant` for the
one reader that tells more, `Shape.agree_entries` and `agreed_fieldOr` for records.
-/

namespace ClassSplit

open Datum

variable {α β γ δ : Type}

namespace Datum

mutual

-- Data that differ in the contents of strings alone.
inductive Alike : Datum → Datum → Prop
  | same (d : Datum) : Alike d d
  | string (s s' : String) : Alike (.string s) (.string s')
  | array {items items' : List Datum} (h : List.Forall₂ Alike items items') :
    Alike (.array items) (.array items')
  | object {entries entries' : List (String × Datum)}
    (h : List.Forall₂ EntryAlike entries entries') : Alike (.object entries) (.object entries')

inductive EntryAlike : String × Datum → String × Datum → Prop
  | named (name : String) {d d' : Datum} (h : Alike d d') : EntryAlike (name, d) (name, d')

end

variable {d d' : Datum} {entries entries' : List (String × Datum)} {name : String}

theorem EntryAlike.refl : (entry : String × Datum) → EntryAlike entry entry
  | (name, d) => .named name (.same d)

theorem Alike.lookup (h : List.Forall₂ EntryAlike entries entries') (name : String) :
    Option.Rel Alike (entries.lookup name) (entries'.lookup name) := by
  induction h with
  | nil => exact .none
  | cons hentry _ ih =>
    obtain ⟨key, hd⟩ := hentry
    simp only [List.lookup_cons]
    cases name == key with
    | true => exact .some hd
    | false => exact ih

theorem Alike.entry_at (h : d.Alike d') (name : String) :
    Option.Rel Alike ( d.entry? name) ( d'.entry? name) := by
  cases h with
  | same =>
    cases d.entry? name with
    | none => exact .none
    | some v => exact .some (.same v)
  | string | array => exact .none
  | object hentries => exact Alike.lookup hentries name

-- A document is an object, so that one that is alike is an object as well.
theorem Alike.exists_entries (h : (Datum.object entries).Alike d') :
    ∃ entries', d' = .object entries' ∧ List.Forall₂ EntryAlike entries entries' := by
  cases h with
  | same => exact ⟨entries, rfl, List.forall₂_same.mpr fun entry _ => .refl entry⟩
  | object hentries => exact ⟨_, rfl, hentries⟩

end Datum

namespace DecodeError

-- Both errors have the same message once the strings in it are redacted.
def SaidAlike (e e' : DecodeError) : Prop := redact e.message.toList = redact e'.message.toList

theorem message_wrongType_string (s expected : String) :
    (wrongType (describe (.string s)) expected).message
      = "invalid type: string " ++ (Text.quoted s ++ (", expected " ++ expected)) := by
  calc "invalid type: " ++ ("string " ++ Text.quoted s) ++ ", expected " ++ expected
    _ = "invalid type: " ++ "string " ++ (Text.quoted s ++ (", expected " ++ expected)) := by
      simp only [String.append_assoc]
    _ = "invalid type: string " ++ (Text.quoted s ++ (", expected " ++ expected)) := rfl

theorem redact_wrongType_string (s expected : String) :
    redact (wrongType (describe (.string s)) expected).message.toList
      = "invalid type: string ".toList
        ++ ("\"<redacted>\"".toList ++ redact (", expected " ++ expected).toList) := by
  have hquote : '"' ∉ "invalid type: string ".toList := by simp
  rw [message_wrongType_string, String.toList_append, redact_append hquote, String.toList_append,
    redact_quoted]

theorem saidAlike_unexpected {d d' : Datum} (h : d.Alike d') (expected : String) :
    SaidAlike (d.unexpected expected) (d'.unexpected expected) := by
  cases h with
  | same | array | object => rfl
  | string s s' =>
    exact (redact_wrongType_string s expected).trans (redact_wrongType_string s' expected).symm

end DecodeError

open DecodeError

-- How two readings may end: both well, or both with errors that are said alike, unless one of them
-- ends with an error that is left out of account.
inductive Agree (P P' : DecodeError → Prop) (R : α → β → Prop) :
    Except DecodeError α → Except DecodeError β → Prop
  | ok {a : α} {b : β} (h : R a b) : Agree P P' R (.ok a) (.ok b)
  | error {e e' : DecodeError} (h : SaidAlike e e') : Agree P P' R (.error e) (.error e')
  | left {e : DecodeError} (h : P e) (r' : Except DecodeError β) : Agree P P' R (.error e) r'
  | right {e' : DecodeError} (r : Except DecodeError α) (h : P' e') : Agree P P' R r (.error e')

variable {P P' : DecodeError → Prop}

namespace Agree

variable {R : α → β → Prop} {S : γ → δ → Prop}
variable {r : Except DecodeError α} {r' : Except DecodeError β}

theorem refl {R : α → α → Prop} (h : ∀ a, R a a) : (r : Except DecodeError α) → Agree P P' R r r
  | .ok a => .ok (h a)
  | .error _ => .error rfl

theorem bind {f : α → Except DecodeError γ} {f' : β → Except DecodeError δ} (h : Agree P P' R r r')
    (hf : ∀ a b, R a b → Agree P P' S (f a) (f' b)) : Agree P P' S (r >>= f) (r' >>= f') := by
  cases h with
  | ok hR => exact hf _ _ hR
  | error hsaid => exact .error hsaid
  | left hP => exact .left hP _
  | right _ hP' => exact .right _ hP'

theorem map {f : α → γ} {f' : β → δ} (h : Agree P P' R r r')
    (hf : ∀ a b, R a b → S (f a) (f' b)) : Agree P P' S (r.map f) (r'.map f') := by
  cases h with
  | ok hR => exact .ok (hf _ _ hR)
  | error hsaid => exact .error hsaid
  | left hP => exact .left hP _
  | right _ hP' => exact .right _ hP'

end Agree

-- Two readings agree in what they tell, whatever they find.
abbrev Agreed (P P' : DecodeError → Prop) (r : Except DecodeError α) (r' : Except DecodeError β) :
    Prop :=
  Agree P P' (fun _ _ => True) r r'

theorem Agreed.refl (r : Except DecodeError α) : Agreed P P' r r := Agree.refl (fun _ => trivial) r

-- What a reader tells of data does not depend on the strings in them.
def Discreet (item : Decoder α) : Prop :=
  ∀ ⦃P P' : DecodeError → Prop⦄ ⦃d d' : Datum⦄, d.Alike d' → Agreed P P' (item d) (item d')

namespace Datum

theorem discreet_asString : Discreet asString := by
  intro P P' d d' h
  cases h with
  | same => exact .refl _
  | string => exact .ok trivial
  | array hitems => exact .error (saidAlike_unexpected (.array hitems) _)
  | object hentries => exact .error (saidAlike_unexpected (.object hentries) _)

-- A reader of values without parts finds all other data in the place of such a value.
theorem discreet_of_unexpected {item : Decoder α} {expected : String}
    (hstring : ∀ s, item (.string s) = .error (unexpected (.string s) expected))
    (harray : ∀ items, item (.array items) = .error (unexpected (.array items) expected))
    (hobject : ∀ entries, item (.object entries) = .error (unexpected (.object entries) expected)) :
    Discreet item := by
  intro P P' d d' h
  have hsaid := saidAlike_unexpected h expected
  cases h with
  | same => exact .refl _
  | string s s' => rw [hstring, hstring]; exact .error hsaid
  | array => rw [harray, harray]; exact .error hsaid
  | object => rw [hobject, hobject]; exact .error hsaid

theorem discreet_asBool : Discreet asBool :=
  discreet_of_unexpected (fun _ => rfl) (fun _ => rfl) fun _ => rfl

theorem discreet_asNat : Discreet asNat :=
  discreet_of_unexpected (fun _ => rfl) (fun _ => rfl) fun _ => rfl

theorem discreet_asOption {item : Decoder α} (hitem : Discreet item) :
    Discreet (asOption item) := by
  intro P P' d d' h
  have hmap : Agreed P P' ((item d).map some) ((item d').map some) :=
    (hitem h).map fun _ _ _ => trivial
  cases h with
  | same => exact .refl _
  | string | array | object => exact hmap

theorem discreet_asNothing : Discreet (asNothing .toml) := by
  intro P P' d d' h
  cases h with
  | same | string => exact .refl _
  | array hitems => cases hitems <;> exact .refl _
  | object hentries => cases hentries <;> exact .refl _

section Variant

variable {variants : List (String × α)} {d d' : Datum}

-- A name that is none of the variants stands in the message as it is.
theorem agreed_asVariant (h : d.Alike d')
    (hleft : ∀ s, d = .string s → P (.unknownVariant s (variants.map Prod.fst)))
    (hright : ∀ s, d' = .string s → P' (.unknownVariant s (variants.map Prod.fst))) :
    Agreed P P' (asVariant .toml variants d) (asVariant .toml variants d') := by
  cases h with
  | same => exact .refl _
  | string s s' =>
    simp only [asVariant]
    cases variants.lookup s with
    | none => exact .left (hleft s rfl) _
    | some v =>
      cases variants.lookup s' with
      | none => exact .right _ (hright s' rfl)
      | some v' => exact .ok trivial
  | array => exact .refl _
  | object hentries =>
    cases hentries with
    | nil => exact .refl _
    | cons hentry htail =>
      obtain ⟨name, hinner⟩ := hentry
      cases htail with
      | nil =>
        refine Agree.bind (Agreed.refl _) fun v v' _ => ?_
        exact (discreet_asNothing hinner).bind fun _ _ _ => .ok trivial
      | cons => exact .refl _

end Variant

namespace Shape

variable {shape : Shape} {entries entries' : List (String × Datum)}

-- By induction on the entries, side by side. Of two entries under one name the second is not
-- checked, so that the first one alone has to be alike.
theorem agreed_checkEntries (hstrict : shape.strict = true)
    (h : List.Forall₂ EntryAlike entries entries') (seen : List String)
    (hslots : ∀ slot ∈ shape.slots, slot.name ∉ seen → ∀ d d',
      entries.lookup slot.name = some d → entries'.lookup slot.name = some d' → d.Alike d' →
      Agreed P P' (slot.check d) (slot.check d')) :
    Agreed P P' (shape.checkEntries seen entries) (shape.checkEntries seen entries') := by
  induction h generalizing seen with
  | nil => exact .refl _
  | cons hentry _ ih =>
    obtain ⟨name, hd⟩ := hentry
    simp only [checkEntries, hstrict, if_true]
    cases hslot : shape.slots.find? (·.name == name) with
    | none => exact .error rfl
    | some slot =>
      obtain rfl : slot.name = name := by simpa using List.find?_some hslot
      have hmem : slot ∈ shape.slots := List.mem_of_find?_eq_some hslot
      dsimp only
      split
      case isTrue => exact .error rfl
      case isFalse hseen =>
        have hfirst := hslots slot hmem (by simpa using hseen) _ _ List.lookup_cons_self
          List.lookup_cons_self hd
        refine Agree.bind hfirst fun _ _ _ => ih _ fun other hother hnot d d' hin hin' => ?_
        rw [List.mem_cons, not_or] at hnot
        have hne : (other.name == slot.name) = false := beq_false_of_ne hnot.left
        refine hslots other hother hnot.right d d' ?_ ?_
        · rw [List.lookup_cons, hne]; exact hin
        · rw [List.lookup_cons, hne]; exact hin'

theorem agree_nameItems (hformat : shape.format = .toml) (total : Nat) {slots : List Slot}
    {items items' : List Datum} (h : List.Forall₂ Alike items items')
    (hslots : ∀ slot ∈ slots, Discreet slot.check) :
    Agree P P' (List.Forall₂ EntryAlike) (shape.nameItems total slots items)
      (shape.nameItems total slots items') := by
  induction slots generalizing items items' with
  | nil =>
    cases h with
    | nil => exact .ok .nil
    | cons => simp only [nameItems, hformat]; exact .ok .nil
  | cons slot slots ih =>
    obtain ⟨hslot, hslots⟩ := List.forall_mem_cons.mp hslots
    cases h with
    | nil =>
      simp only [nameItems]
      split
      · exact ih .nil hslots
      · exact .error rfl
    | cons hd hds =>
      refine Agree.bind (hslot hd) fun _ _ _ => Agree.bind (ih hds hslots) fun _ _ hrest => ?_
      exact .ok (.cons (.named slot.name hd) hrest)

theorem agree_entries {d d' : Datum} (hstrict : shape.strict = true)
    (hformat : shape.format = .toml) (hslots : ∀ slot ∈ shape.slots, Discreet slot.check)
    (h : d.Alike d') : Agree P P' Alike (shape.entries d) (shape.entries d') := by
  cases h with
  | same => exact .refl .same _
  | string s s' => exact .error (saidAlike_unexpected (.string s s') _)
  | array hitems =>
    rw [entries, entries, hitems.length_eq]
    exact (agree_nameItems hformat _ hitems hslots).map fun _ _ hentries => .object hentries
  | object hentries =>
    refine Agree.bind (agreed_checkEntries hstrict hentries [] ?_) fun _ _ _ => ?_
    · exact fun slot hmem _ _ _ _ _ hd => hslots slot hmem hd
    · exact .ok (.object hentries)

end Shape

theorem agreed_fieldOr {item : Decoder α} {d d' : Datum} (h : d.Alike d') (name : String)
    (absent : α)
    (hitem : ∀ v v', d.entry? name = some v → d'.entry? name = some v' → v.Alike v' →
      Agreed P P' (item v) (item v')) :
    Agreed P P' (fieldOr d name item absent) (fieldOr d' name item absent) := by
  rw [fieldOr, fieldOr]
  have hentry := h.entry_at name
  cases hfound : d.entry? name with
  | none =>
    cases hfound' : d'.entry? name with
    | none => exact .refl _
    | some => rw [hfound, hfound'] at hentry; cases hentry
  | some v =>
    cases hfound' : d'.entry? name with
    | none => rw [hfound, hfound'] at hentry; cases hentry
    | some v' =>
      rw [hfound, hfound'] at hentry
      cases hentry with
      | some hv => exact hitem v v' hfound hfound' hv

end Datum

theorem Discreet.checking {item : Decoder α} (h : Discreet item) : Discreet (checking item) :=
  fun _ _ _ _ hd => (h hd).map fun _ _ _ => trivial

theorem Discreet.fieldOr {item : Decoder α} {d d' : Datum} (h : Discreet item) (hd : d.Alike d')
    (name : String) (absent : α) :
    Agreed P P' (fieldOr d name item absent) (fieldOr d' name item absent) :=
  agreed_fieldOr hd name absent fun _ _ _ _ hv => h hv

end ClassSplit
