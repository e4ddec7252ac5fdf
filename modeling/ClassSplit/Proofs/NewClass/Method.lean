import ClassSplit.Proofs.NewClass.Rewording
import ClassSplit.Proofs.Text.Layout
import ClassSplit.Proofs.Text.Words

/-!
Moving a method of a source that has been read. It fails only for a call that may go to a method
that moves as well as to one that stays; otherwise the words of the declaration move with it, apart
from the tokens that are edited.
-/

namespace ClassSplit

open Java

namespace Relocation

variable {r : Relocation} {m : Method} {declaration site : Site} {body : Site}
  {e : ExtractionError}

theorem isUnsupported_of_goesBack {callee : String} {call : Site}
    (h : r.goesBack callee call declaration = .error e) : e.isUnsupported = true := by
  simp only [goesBack] at h
  split at h
  case isTrue => cases h
  case isFalse =>
    split at h
    case isTrue => cases h
    case isFalse =>
      split at h
      case isTrue => cases h
      case isFalse =>
        cases h
        rfl

theorem isUnsupported_of_moveMethod (hbody : r.source.PrimaryBody body)
    (hm : m ∈ r.source.model.methods) (h : r.moveMethod m = .error e) :
    e.isUnsupported = true := by
  obtain ⟨declaration, hfound, -, hsound, hkind⟩ := exists_declaration_of_mem_methods hbody hm
  rw [moveMethod, hfound] at h
  obtain hedits | ⟨edits, hedits, h⟩ := bind_eq_error.mp h
  · obtain hfails | ⟨_, -, h⟩ := bind_eq_error.mp hedits
    · obtain ⟨site, -, hsite⟩ := exists_of_mapM_eq_error hfails
      obtain ⟨_, -, hback⟩ := exists_of_siteEdits_eq_error hsite
      exact isUnsupported_of_goesBack hback
    · cases h
  · obtain ⟨text, htext, -⟩ := exists_reworded hsound hkind hedits
    rw [htext] at h
    cases h

theorem isUnsupported_of_moveMethods (hbody : r.source.PrimaryBody body)
    (hmethods : ∀ m ∈ r.methods, m ∈ r.source.model.methods) (h : r.moveMethods = .error e) :
    e.isUnsupported = true := by
  obtain ⟨m, hm, hfails⟩ := exists_of_mapM_eq_error h
  exact isUnsupported_of_moveMethod hbody (hmethods m hm) hfails

section Moves

variable {moved : MovedMethod} {methods : List MovedMethod}

-- A moved method keeps its signature, and the words of its declaration apart from some tokens.
structure Moves (r : Relocation) (m : Method) (moved : MovedMethod) : Prop where
  signature : moved.signature = m.signature
  words : ∃ declaration edits text, r.source.member? m.span = some declaration ∧
    r.tokenEdits m declaration = .ok edits ∧ r.editedText declaration edits = .ok text ∧
      Text.words moved.source.toList = Text.words text.toList

theorem moves_of_moveMethod (h : r.moveMethod m = .ok moved) : r.Moves m moved := by
  rw [moveMethod] at h
  split at h
  case h_2 => cases h
  case h_1 declaration hdeclaration =>
    obtain ⟨edits, hedits, h⟩ := bind_eq_ok.mp h
    obtain ⟨text, htext, h⟩ := bind_eq_ok.mp h
    cases h
    refine ⟨rfl, declaration, edits, text, hdeclaration, hedits, ?_, ?_⟩
    · cases hedited : r.editedText declaration edits with
      | error e =>
        rw [hedited] at htext
        cases htext
      | ok text' =>
        rw [hedited] at htext
        cases htext
        rfl
    · rw [String.toList_ofList, Text.words_dedentBlock]
      exact Text.words_append_of_allBlank (Text.allBlank_getD_leadingIndent _ _) _

theorem forall₂_moves (h : r.moveMethods = .ok methods) :
    List.Forall₂ r.Moves r.methods methods :=
  (forall₂_of_mapM_eq_ok h).imp fun _ _ => moves_of_moveMethod

end Moves

end Relocation

end ClassSplit
