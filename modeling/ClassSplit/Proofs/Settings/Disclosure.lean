import ClassSplit.Proofs.Settings.Agreement
import Mathlib

/-!
What the message about a settings file tells of the strings in the file: nothing, unless it refuses
one of them as the style of indentation. Main statement: `message_eq_or_refuses`.
-/

namespace ClassSplit

open Datum DecodeError

theorem LogSettings.discreet_ofDatum : Discreet (LogSettings.ofDatum .toml) := by
  intro P P' d d' h
  have hslots : ∀ slot ∈ (shape .toml).slots, Discreet slot.check := by
    intro slot hslot
    obtain rfl | rfl : slot = allowed "level" asString ∨ slot = allowed "json" asBool := by
      simpa [shape] using hslot
    · exact discreet_asString.checking
    · exact discreet_asBool.checking
  refine Agree.bind (Shape.agree_entries rfl rfl hslots h) fun d d' hd => ?_
  refine Agree.bind (discreet_asString.fieldOr hd "level" "warn") fun _ _ _ => ?_
  refine Agree.bind (discreet_asBool.fieldOr hd "json" false) fun _ _ _ => ?_
  exact .ok trivial

namespace Settings

-- The error refuses the text that stands in the data as the style of indentation.
def RefusesStyle (d : Datum) (e : SettingsError) : Prop :=
  ∃ s, d.entry? "indent_style" = some (.string s)
    ∧ e = .unreadable (.unknownVariant s (IndentStyle.variants.map Prod.fst))

section Entries

variable {entries entries' : List (String × Datum)}

theorem agreed_style {d d' : Datum} (hd : entries.lookup "indent_style" = some d)
    (hd' : entries'.lookup "indent_style" = some d') (h : d.Alike d') :
    Agreed (RefusesStyle (.object entries) <| .unreadable ·)
      (RefusesStyle (.object entries') <| .unreadable ·)
      (asVariant .toml IndentStyle.variants d) (asVariant .toml IndentStyle.variants d') :=
  agreed_asVariant h (fun s hs => ⟨s, hs ▸ hd, rfl⟩) fun s hs => ⟨s, hs ▸ hd', rfl⟩

-- A document is an object, so that its entries are what is checked.
theorem agree_entries (h : List.Forall₂ EntryAlike entries entries') :
    Agree (RefusesStyle (.object entries) <| .unreadable ·)
      (RefusesStyle (.object entries') <| .unreadable ·)
      (fun d d' => d = .object entries ∧ d' = .object entries')
      ((shape .toml).entries (.object entries)) ((shape .toml).entries (.object entries')) := by
  refine Agree.bind (Shape.agreed_checkEntries rfl h [] ?_) fun _ _ _ => .ok ⟨rfl, rfl⟩
  have hname := (discreet_asOption discreet_asString).checking
  intro slot hslot _ d d' hd hd' hdd'
  simp only [shape, List.mem_cons, List.not_mem_nil, or_false] at hslot
  obtain rfl | rfl | rfl | rfl | rfl | rfl := hslot
  · exact discreet_asNat.checking hdd'
  · exact hname hdd'
  · exact discreet_asNat.checking hdd'
  · exact (agreed_style hd hd' hdd').map fun _ _ _ => trivial
  · exact hname hdd'
  · exact LogSettings.discreet_ofDatum.checking hdd'

theorem agreed_ofDatum (h : List.Forall₂ EntryAlike entries entries') :
    Agreed (RefusesStyle (.object entries) <| .unreadable ·)
      (RefusesStyle (.object entries') <| .unreadable ·)
      (ofDatum .toml (.object entries)) (ofDatum .toml (.object entries')) := by
  have hd : (Datum.object entries).Alike (.object entries') := .object h
  have hname := discreet_asOption discreet_asString
  have hstyle := agreed_fieldOr hd "indent_style" IndentStyle.spaces fun _ _ hv hv' =>
    agreed_style hv hv'
  refine (agree_entries h).bind ?_
  rintro _ _ ⟨rfl, rfl⟩
  refine Agree.bind (discreet_asNat.fieldOr hd "max_repair_iterations" _) fun _ _ _ => ?_
  refine Agree.bind (hname.fieldOr hd "helper_field_name" none) fun _ _ _ => ?_
  refine Agree.bind (discreet_asNat.fieldOr hd "indent_width" 4) fun _ _ _ => ?_
  refine Agree.bind hstyle fun _ _ _ => ?_
  refine Agree.bind (hname.fieldOr hd "file_extension" none) fun _ _ _ => ?_
  refine Agree.bind (LogSettings.discreet_ofDatum.fieldOr hd "logging" {}) fun _ _ _ => ?_
  exact .ok trivial

end Entries

variable {text text' : String} {d d' : Datum} {e e' : SettingsError}

theorem ofFile_eq (hread : Toml.read? text = some d) :
    ofFile text = (ofDatum .toml d).mapError .unreadable := by
  rw [ofFile, hread]

theorem exists_unreadable (hread : Toml.read? text = some d) (h : ofFile text = .error e) :
    ∃ cause, ofDatum .toml d = .error cause ∧ e = .unreadable cause := by
  rw [ofFile_eq hread] at h
  cases hd : ofDatum .toml d with
  | ok s => rw [hd] at h; cases h
  | error cause => rw [hd] at h; cases h; exact ⟨cause, rfl, rfl⟩

theorem exists_entries_of_read? (h : Toml.read? text = some d) :
    ∃ entries, d = .object entries := by
  obtain ⟨entries, -, rfl⟩ := Option.map_eq_some_iff.mp h
  exact ⟨_, rfl⟩

theorem message_eq_or_refuses (hread : Toml.read? text = some d)
    (hread' : Toml.read? text' = some d') (h : d.Alike d') (he : ofFile text = .error e)
    (he' : ofFile text' = .error e') :
    e.message = e'.message ∨ RefusesStyle d e ∨ RefusesStyle d' e' := by
  obtain ⟨cause, hcause, rfl⟩ := exists_unreadable hread he
  obtain ⟨cause', hcause', rfl⟩ := exists_unreadable hread' he'
  obtain ⟨entries, rfl⟩ := exists_entries_of_read? hread
  obtain ⟨entries', rfl, hentries⟩ := h.exists_entries
  have hagreed := agreed_ofDatum hentries
  rw [hcause, hcause'] at hagreed
  cases hagreed with
  | error hsaid =>
    left
    exact congrArg (fun shown => "failed to parse toml config: " ++ String.ofList shown) hsaid
  | left hrefuses => exact .inr (.inl hrefuses)
  | right _ hrefuses => exact .inr (.inr hrefuses)

-- Two files that give the number of rounds as a string are rejected with one message.
theorem message_eq_or_refuses_rounds :
    ∃ e e', ofFile "max_repair_iterations = \"hunter2\"" = .error e
      ∧ ofFile "max_repair_iterations = \"hunter3\"" = .error e'
      ∧ (e.message = e'.message
        ∨ RefusesStyle (.object [("max_repair_iterations", .string "hunter2")]) e
        ∨ RefusesStyle (.object [("max_repair_iterations", .string "hunter3")]) e') := by
  have hread : Toml.read? "max_repair_iterations = \"hunter2\""
      = some (.object [("max_repair_iterations", .string "hunter2")]) := by cbv
  have hread' : Toml.read? "max_repair_iterations = \"hunter3\""
      = some (.object [("max_repair_iterations", .string "hunter3")]) := by cbv
  have h : (Datum.object [("max_repair_iterations", .string "hunter2")]).Alike
      (.object [("max_repair_iterations", .string "hunter3")]) :=
    .object (.cons (.named _ (.string _ _)) .nil)
  have he : ofFile "max_repair_iterations = \"hunter2\""
      = .error (.unreadable (.wrongType (describe (.string "hunter2")) "usize")) := ofFile_eq hread
  have he' : ofFile "max_repair_iterations = \"hunter3\""
      = .error (.unreadable (.wrongType (describe (.string "hunter3")) "usize")) := ofFile_eq hread'
  exact ⟨_, _, he, he', message_eq_or_refuses hread hread' h he he'⟩

-- What is refused stands between ticks, which are not redacted.
theorem cause_refusal {s : String} (h : '"' ∉ s.toList) :
    (SettingsError.unreadable
        (.unknownVariant s (IndentStyle.variants.map Prod.fst))).cause
      = "unknown variant `" ++ (s ++ "`, expected `spaces` or `tabs`") := by
  have hmessage : (DecodeError.unknownVariant s (IndentStyle.variants.map Prod.fst)).message
      = "unknown variant `" ++ (s ++ "`, expected `spaces` or `tabs`") := by
    calc "unknown variant " ++ ("`" ++ s ++ "`") ++ ", expected " ++ "`spaces` or `tabs`"
      _ = "unknown variant " ++ "`" ++ (s ++ ("`" ++ ", expected " ++ "`spaces` or `tabs`")) := by
        simp only [String.append_assoc]
      _ = "unknown variant `" ++ (s ++ "`, expected `spaces` or `tabs`") := rfl
  have hfront : '"' ∉ "unknown variant `".toList := by decide
  have hback : '"' ∉ "`, expected `spaces` or `tabs`".toList := by decide
  have hplain : '"' ∉ ("unknown variant `" ++ (s ++ "`, expected `spaces` or `tabs`")).toList := by
    simp only [String.toList_append, List.mem_append, not_or]
    exact ⟨hfront, h, hback⟩
  rw [cause_of_notMem (hmessage ▸ hplain), hmessage]

theorem not_forall_message_eq :
    ¬ ∀ text text' d d' e e', Toml.read? text = some d → Toml.read? text' = some d' →
      d.Alike d' →
      (∀ s ∈ IndentStyle.variants.map Prod.fst, d.entry? "indent_style" ≠ some (.string s)) →
      (∀ s ∈ IndentStyle.variants.map Prod.fst, d'.entry? "indent_style" ≠ some (.string s)) →
      ofFile text = .error e → ofFile text' = .error e' → e.message = e'.message := by
  intro hforall
  have hread : Toml.read? "indent_style = \"hunter2\""
      = some (.object [("indent_style", .string "hunter2")]) := by cbv
  have hread' : Toml.read? "indent_style = \"hunter3\""
      = some (.object [("indent_style", .string "hunter3")]) := by cbv
  have h : (Datum.object [("indent_style", .string "hunter2")]).Alike
      (.object [("indent_style", .string "hunter3")]) :=
    .object (.cons (.named _ (.string _ _)) .nil)
  have he : ofFile "indent_style = \"hunter2\"" = .error (.unreadable
      (.unknownVariant "hunter2" (IndentStyle.variants.map Prod.fst))) := ofFile_eq hread
  have he' : ofFile "indent_style = \"hunter3\"" = .error (.unreadable
      (.unknownVariant "hunter3" (IndentStyle.variants.map Prod.fst))) := ofFile_eq hread'
  have hnone (s : String) (hs : s ∉ IndentStyle.variants.map Prod.fst) (name : String)
      (hname : name ∈ IndentStyle.variants.map Prod.fst) :
      Datum.entry? "indent_style" (.object [("indent_style", .string s)]) ≠ some (.string name) := by
    rintro ⟨⟩
    exact hs hname
  have hshown := hforall _ _ _ _ _ _ hread hread' h (hnone "hunter2" (by decide))
    (hnone "hunter3" (by decide)) he he'
  have hcause := String.append_right_inj _ |>.mp hshown
  have hsecrets := (cause_refusal (by decide)).symm.trans (hcause.trans (cause_refusal (by decide)))
  exact absurd hsecrets (by decide)

end Settings

end ClassSplit
