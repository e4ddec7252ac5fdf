import ClassSplit.Patch.Basic
import ClassSplit.Text.Offset

/-!
Carrying a patch out on a text. Replacements that lie inside another one show only through its
source pieces; replacements that overlap otherwise are refused.
-/

namespace ClassSplit

inductive SpliceError where
  | outOfBounds (span : Span) (length : Nat)
  | notCharBoundary (span : Span)
  | overlap (first second : Span)
  | pieceOutside (span piece : Span)
  deriving DecidableEq

def SpliceError.message : SpliceError → String
  | .outOfBounds span length =>
    "text range " ++ span.describe ++ " is outside the source bounds (len=" ++ toString length
      ++ ")"
  | .notCharBoundary span =>
    "text range " ++ span.describe ++ " does not fall on a UTF-8 character boundary"
  | .overlap first second =>
    "overlapping rewrites: " ++ first.describe ++ " overlaps " ++ second.describe
  | .pieceOutside span piece =>
    "rewrite of " ++ span.describe ++ " embeds source range " ++ piece.describe
      ++ " outside of itself"

namespace Replacement

/-- Why a replacement does not fit a text, if it does not. -/
def misfit? (text : List Char) (r : Replacement) : Option SpliceError :=
  if Text.byteLength text < r.span.stop ∨ r.span.stop < r.span.start then
    some (.outOfBounds r.span (Text.byteLength text))
  else if Text.isBoundary r.span.start text ∧ Text.isBoundary r.span.stop text then none
  else some (.notCharBoundary r.span)

/-- The replacement after those that `r` encloses, if it reaches back into `r`. -/
def clash? (r : Replacement) (rest : List Replacement) : Option Replacement :=
  (rest.dropWhile r.encloses).head?.filter (·.span.start < r.span.stop)

end Replacement

namespace Patch

-- The replacements come in normal order and lie between `cursor` and `stop`. Those that the first
-- one encloses follow it directly; whatever comes after them must not reach back into it.
mutual

/-- The text from `cursor` to `stop` with the replacements carried out. -/
def splice (text : List Char) (cursor stop : Nat) :
    List Replacement → Except SpliceError (List Char)
  | [] => .ok (Text.slice text ⟨cursor, stop⟩)
  | r :: rest =>
    match r.clash? rest with
    | some s => .error (.overlap r.span s.span)
    | none => do
      let shown ← splicePieces text r.span (rest.takeWhile r.encloses) r.pieces
      let tail ← splice text r.span.stop stop (rest.dropWhile r.encloses)
      .ok (Text.slice text ⟨cursor, r.span.start⟩ ++ shown ++ tail)
termination_by rs => (rs.length, 0, 0)
decreasing_by
  · have := (List.takeWhile_prefix r.encloses (l := rest)).length_le
    apply Prod.Lex.left; simp only [List.length_cons]; omega
  · have := (List.dropWhile_suffix r.encloses (l := rest)).length_le
    apply Prod.Lex.left; simp only [List.length_cons]; omega

/-- The pieces of a replacement of `span`, given the replacements that it encloses. -/
def splicePieces (text : List Char) (span : Span) (nested : List Replacement) :
    List Piece → Except SpliceError (List Char)
  | [] => .ok []
  | .text new :: pieces => do
    let shown ← splicePieces text span nested pieces
    .ok (new.toList ++ shown)
  | .source part :: pieces =>
    if span.covers part then do
      let shown ← splice text part.start part.stop (nested.filter fun r => part.covers r.span)
      let tail ← splicePieces text span nested pieces
      .ok (shown ++ tail)
    else .error (.pieceOutside span part)
termination_by pieces => (nested.length, 1, pieces.length)
decreasing_by
  · simp_wf; apply Prod.Lex.right; apply Prod.Lex.right; simp
  · have := List.length_filter_le (fun r => part.covers r.span) nested
    cases Nat.lt_or_eq_of_le this
    case inl hlt => simp_wf; apply Prod.Lex.left; exact hlt
    case inr heq => simp_wf; rw [heq]; apply Prod.Lex.right; apply Prod.Lex.left; decide
  · simp_wf; apply Prod.Lex.right; apply Prod.Lex.right; simp

end

/-- Carries a patch out on a text. -/
def apply (p : Patch) (source : String) : Except SpliceError String :=
  let text := source.toList
  let replacements := p.normalize.replacements
  match replacements.findSome? (·.misfit? text) with
  | some error => .error error
  | none => (splice text 0 (Text.byteLength text) replacements).map String.ofList

end Patch

end ClassSplit
