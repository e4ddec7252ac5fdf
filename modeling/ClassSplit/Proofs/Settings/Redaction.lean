import ClassSplit.Settings.File

/-!
What is shown of a message. A string is quoted in a message in such a way that no quote inside ends
it, so that all of the string is redacted. Main statement: `redact_quoted`.
-/

namespace ClassSplit

open Text

variable {c : Char} {cs rest : List Char}

theorem redact_append (h : '"' ∉ cs) (rest : List Char) :
    redact (cs ++ rest) = cs ++ redact rest := by
  induction cs with
  | nil => rfl
  | cons c cs ih =>
    rw [List.mem_cons, not_or] at h
    rw [List.cons_append, redact, if_neg (Ne.symm h.left), ih h.right, List.cons_append]

theorem redact_of_notMem (h : '"' ∉ cs) : redact cs = cs := by
  simpa [redact] using redact_append h []

-- A message without quotes is shown as it is.
theorem cause_of_notMem {e : DecodeError} (h : '"' ∉ e.message.toList) :
    (SettingsError.unreadable e).cause = e.message := by
  rw [SettingsError.cause, redact_of_notMem h, String.ofList_toList]

theorem redact_cons_quote (h : afterQuoted? cs = some rest) :
    redact ('"' :: cs) = "\"<redacted>\"".toList ++ redact rest := by
  rw [redact, if_pos rfl]
  split
  case h_1 found hfound => rw [Option.some.inj (hfound.symm.trans h)]
  case h_2 hnone => rw [h] at hnone; cases hnone

theorem afterQuoted?_cons (hquote : c ≠ '"') (hslash : c ≠ '\\') (rest : List Char) :
    afterQuoted? (c :: rest) = afterQuoted? rest :=
  afterQuoted?.eq_5 c rest hquote (fun h _ => hslash h) (fun _ _ h _ => hslash h)

theorem afterQuoted?_append (h : ∀ c ∈ cs, c ≠ '"' ∧ c ≠ '\\') (rest : List Char) :
    afterQuoted? (cs ++ rest) = afterQuoted? rest := by
  induction cs with
  | nil => rfl
  | cons c cs ih =>
    obtain ⟨⟨hquote, hslash⟩, hcs⟩ := List.forall_mem_cons.mp h
    rw [List.cons_append, afterQuoted?_cons hquote hslash, ih hcs]

theorem afterQuoted?_slash (h : c ≠ '\n') (rest : List Char) :
    afterQuoted? ('\\' :: c :: rest) = afterQuoted? rest := by
  rw [afterQuoted?, if_neg h]

theorem hexDigit_plain (n : Nat) : hexDigit n ≠ '"' ∧ hexDigit n ≠ '\\' := by
  have hdigits : ∀ c ∈ "0123456789abcdef".toList, c ≠ '"' ∧ c ≠ '\\' := by simp
  unfold hexDigit
  cases h : "0123456789abcdef".toList[n]? with
  | none => simp
  | some c => exact hdigits c (List.mem_of_getElem? h)

theorem plain_of_mem_hexText {n : Nat} (h : c ∈ hexText n) : c ≠ '"' ∧ c ≠ '\\' := by
  rw [hexText, List.mem_reverse] at h
  induction n using hexDigitsBack.induct with
  | case1 n hlt =>
    rw [hexDigitsBack, dif_pos hlt, List.mem_singleton] at h
    exact h ▸ hexDigit_plain n
  | case2 n hlt ih =>
    rw [hexDigitsBack, dif_neg hlt, List.mem_cons] at h
    obtain h | h := h
    · exact h ▸ hexDigit_plain _
    · exact ih h

theorem afterQuoted?_escaped (c : Char) (rest : List Char) :
    afterQuoted? (escaped c ++ rest) = afterQuoted? rest := by
  unfold escaped
  split
  case h_7 hquote hslash =>
    split
    · -- a code point in braces
      calc afterQuoted? (['\\', 'u', '\x7b'] ++ hexText c.toNat ++ ['\x7d'] ++ rest)
        _ = afterQuoted? ('\\' :: 'u' :: '\x7b' :: (hexText c.toNat ++ '\x7d' :: rest)) := by simp
        _ = afterQuoted? ('\x7b' :: (hexText c.toNat ++ '\x7d' :: rest)) :=
          afterQuoted?_slash (by decide) _
        _ = afterQuoted? (hexText c.toNat ++ '\x7d' :: rest) :=
          afterQuoted?_cons (by decide) (by decide) _
        _ = afterQuoted? ('\x7d' :: rest) :=
          afterQuoted?_append (fun _ hd => plain_of_mem_hexText hd) _
        _ = afterQuoted? rest := afterQuoted?_cons (by decide) (by decide) _
    · exact afterQuoted?_cons hquote hslash rest
  all_goals exact afterQuoted?_slash (by decide) rest

theorem afterQuoted?_flatMap_escaped (cs rest : List Char) :
    afterQuoted? (cs.flatMap escaped ++ '"' :: rest) = some rest := by
  induction cs with
  | nil => rfl
  | cons c cs ih => rw [List.flatMap_cons, List.append_assoc, afterQuoted?_escaped, ih]

theorem redact_quoted (s : String) (rest : List Char) :
    redact ((quoted s).toList ++ rest) = "\"<redacted>\"".toList ++ redact rest := by
  have hquoted : (quoted s).toList ++ rest = '"' :: (s.toList.flatMap escaped ++ '"' :: rest) := by
    simp [quoted, String.toList_append, String.toList_ofList]
  rw [hquoted, redact_cons_quote (afterQuoted?_flatMap_escaped _ _)]

end ClassSplit
