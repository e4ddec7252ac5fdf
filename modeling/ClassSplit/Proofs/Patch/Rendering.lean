import ClassSplit.Patch.Splice
import ClassSplit.Proofs.Patch.NormalOrder
import ClassSplit.Proofs.Text.Offset
import Mathlib.Tactic.Tauto

/-!
What a family of replacements makes of a text, whatever the order in which they are listed. Every
offset contributes on its own: the outermost insertion there, then the outermost replacement that
begins there, and the character that begins there if no outermost replacement holds it.
-/

namespace ClassSplit

namespace Replacement

-- Nothing of the one lies in the other. An insertion on a boundary is beside what it borders on.
def beside (r s : Replacement) : Bool :=
  r.span.stop ≤ s.span.start || s.span.stop ≤ r.span.start

-- The replacements in a span that no replacement in the span encloses.
def outermost (family : List Replacement) (span : Span) : List Replacement :=
  let inside := family.filter (span.covers ·.span)
  inside.filter fun r => !inside.any (·.encloses r)

def insertsAt (offset : Nat) (r : Replacement) : Bool := r.isInsertion && r.span.start == offset

def replacesFrom (offset : Nat) (r : Replacement) : Bool :=
  !r.isInsertion && r.span.start == offset

-- What begins at an offset, an insertion first.
def startingAt (family : List Replacement) (offset : Nat) : List Replacement :=
  (family.find? (insertsAt offset)).toList ++ (family.find? (replacesFrom offset)).toList

@[simp] theorem insertsAt_iff {offset : Nat} {r : Replacement} :
    insertsAt offset r = true ↔ r.span.start = r.span.stop ∧ r.span.start = offset := by
  simp [insertsAt]

@[simp] theorem replacesFrom_iff {offset : Nat} {r : Replacement} :
    replacesFrom offset r = true ↔ r.span.start ≠ r.span.stop ∧ r.span.start = offset := by
  rw [replacesFrom, Bool.and_eq_true, Bool.not_eq_true', not_isInsertion_iff, beq_iff_eq]

theorem mem_of_mem_startingAt {family : List Replacement} {offset : Nat} {r : Replacement}
    (h : r ∈ startingAt family offset) : r ∈ family := by
  cases List.mem_append.mp h
  case inl h => exact List.mem_of_find?_eq_some (Option.mem_toList.mp h)
  case inr h => exact List.mem_of_find?_eq_some (Option.mem_toList.mp h)

theorem mem_outermost {family : List Replacement} {span : Span} {r : Replacement} :
    r ∈ outermost family span ↔
      r ∈ family ∧ span.covers r.span = true ∧
        ∀ s ∈ family, span.covers s.span = true → s.encloses r = false := by
  simp [outermost]
  tauto

theorem encloses_iff {r s : Replacement} :
    r.encloses s = true ↔
      r.span.start ≠ r.span.stop ∧
        ¬(r.span.start = s.span.start ∧ r.span.stop = s.span.stop) ∧
        r.span.start ≤ s.span.start ∧ s.span.stop ≤ r.span.stop ∧
        ¬(s.span.start = s.span.stop ∧
          (s.span.start = r.span.start ∨ s.span.start = r.span.stop)) := by
  simp [encloses, Span.covers, isInsertion, Span.isEmpty, Span.eq_iff]
  tauto

theorem covers_of_encloses {r s : Replacement} (h : r.encloses s = true) :
    r.span.covers s.span = true := by
  have ⟨_, _, hstart, hstop, _⟩ := encloses_iff.mp h
  simp [Span.covers, hstart, hstop]

@[simp] theorem encloses_self (r : Replacement) : r.encloses r = false := by
  simp [encloses]

theorem length_filter_encloses_lt {family : List Replacement} {r : Replacement}
    (h : r ∈ family) : (family.filter r.encloses).length < family.length :=
  List.length_filter_lt_length_iff_exists.mpr ⟨r, h, by simp⟩

-- The text of a span under a family of replacements. What a replacement shows of its own span is
-- the text of that part under the replacements that it encloses.
def rendering (text : List Char) (family : List Replacement) (span : Span) : List Char :=
  let outer := outermost family span
  (List.range' span.start (span.length + 1)).flatMap fun offset =>
    ((startingAt outer offset).attach.flatMap fun ⟨r, _⟩ => r.pieces.flatMap fun
        | .text new => new.toList
        | .source part => rendering text (family.filter r.encloses) part)
      ++ if offset < span.stop && !outer.any (·.span.holds offset) then
          (Text.charAt? offset text).toList
        else []
termination_by family.length
decreasing_by
  have hr : r ∈ outermost family span := mem_of_mem_startingAt ‹_›
  simpa using length_filter_encloses_lt (mem_outermost.mp hr).left

-- What a replacement of a family puts in the place of its span.
def shown (text : List Char) (family : List Replacement) (r : Replacement) : List Char :=
  r.pieces.flatMap fun
    | .text new => new.toList
    | .source part => rendering text (family.filter r.encloses) part

-- What an offset contributes to the text up to `stop`, given the outermost replacements.
def contribution (text : List Char) (outer : List Replacement) (stop : Nat)
    (shows : Replacement → List Char) (offset : Nat) : List Char :=
  (startingAt outer offset).flatMap shows
    ++ if offset < stop && !outer.any (·.span.holds offset) then
        (Text.charAt? offset text).toList
      else []

theorem rendering_eq (text : List Char) (family : List Replacement) (span : Span) :
    rendering text family span =
      (List.range' span.start (span.length + 1)).flatMap
        (contribution text (outermost family span) span.stop (shown text family)) := by
  rw [rendering]
  congr 1
  funext offset
  rw [contribution, List.flatMap_subtype]
  · simp only [List.unattach_attach]
    rfl
  · intro r hr
    rfl

-- Only what the outermost replacements show counts.
theorem contribution_congr {text : List Char} {outer : List Replacement} {stop offset : Nat}
    {f g : Replacement → List Char} (h : ∀ r ∈ outer, f r = g r) :
    contribution text outer stop f offset = contribution text outer stop g offset := by
  have hshows : (startingAt outer offset).flatMap f = (startingAt outer offset).flatMap g :=
    List.flatMap_congr fun r hr => h r (mem_of_mem_startingAt hr)
  rw [contribution, contribution, hshows]

-- Replacements that do not lie in the span play no part.
theorem rendering_filter_covers (text : List Char) (family : List Replacement) (span : Span) :
    rendering text (family.filter (span.covers ·.span)) span = rendering text family span := by
  have houter : outermost (family.filter (span.covers ·.span)) span = outermost family span := by
    simp [outermost]
  rw [rendering_eq, rendering_eq, houter]
  congr 1
  funext offset
  refine contribution_congr ?_
  intro r hr
  have hcovers := (mem_outermost.mp hr).right.left
  have hnested : (family.filter (span.covers ·.span)).filter r.encloses =
      family.filter r.encloses := by
    rw [List.filter_filter]
    refine List.filter_congr ?_
    intro s _
    cases henc : r.encloses s
    case false => rfl
    case true => simpa using Span.covers_trans hcovers (covers_of_encloses henc)
  rw [shown, shown, hnested]

end Replacement

end ClassSplit
