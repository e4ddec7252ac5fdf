/-!
Finding a text in another one.
-/

namespace ClassSplit.Text

/-- Whether a text occurs somewhere in another one. -/
def occursIn (part : List Char) : List Char → Bool
  | [] => part.isEmpty
  | c :: cs => part.isPrefixOf (c :: cs) || occursIn part cs

theorem occursIn_iff {part cs : List Char} : occursIn part cs = true ↔ part <:+: cs := by
  induction cs with
  | nil => simp [occursIn, List.infix_nil]
  | cons c cs ih => simp [occursIn, ih, List.infix_cons_iff]

end ClassSplit.Text
