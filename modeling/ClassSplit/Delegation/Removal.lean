import ClassSplit.Delegation.Basic

/-!
Removing the declarations of fields that move. A declaration of which every variable moves goes
away with the comments attached to it and, if it stands on lines of its own, with those lines. One
of which some variables stay is put together again from these.
-/

namespace ClassSplit

open Java

/-- A span to delete, and whether it consists of whole lines. -/
structure Removal where
  span : Span
  wholeLines : Bool
  deriving DecidableEq

namespace Removal

/-- Joins a removal to the one after it if both consist of whole lines and touch. -/
def join (r : Removal) : List Removal → List Removal
  | [] => [r]
  | s :: rest =>
    if r.wholeLines ∧ s.wholeLines ∧ r.span.stop = s.span.start then
      ⟨⟨r.span.start, s.span.stop⟩, true⟩ :: rest
    else r :: s :: rest

/-- Joins all removals of whole lines that touch. -/
def joinAll (rs : List Removal) : List Removal :=
  (rs.mergeSort fun r s => r.span.start ≤ s.span.start).foldr join []

/-- Where the comments start that are attached to what starts at `start`, given the nodes before it,
the nearest one first. A comment is attached if it begins a line and no blank line follows it. -/
def attachedStart (text : List Char) (start : Nat) : List Node → Nat
  | [] => start
  | n :: before =>
    let gap := Text.slice text ⟨n.span.stop, start⟩
    if n.isComment ∧ gap.count '\n' ≤ 1 ∧ Text.allBlank gap
        ∧ (Text.leadingIndent text n.span.start).isSome then
      attachedStart text n.span.start before
    else start

/-- The removal of a declaration in a class body. -/
def ofDeclaration (text : List Char) (declaration : Node) (siblings : List Node) : Removal :=
  let before := (siblings.takeWhile (·.span != declaration.span)).reverse
  let start := attachedStart text declaration.span.start before
  let stop := declaration.span.stop
  if (Text.leadingIndent text start).isSome ∧ Text.restOfLineIsBlank text stop then
    ⟨⟨Text.lineStart text start, Text.lineEnd text stop⟩, true⟩
  else ⟨⟨start, stop⟩, false⟩

/-- Whether the line before an offset is blank, opens a block, or does not exist. -/
def followsOpening (text : List Char) (offset : Nat) : Bool :=
  offset == 0 ||
    let line := Text.trim (Text.slice text ⟨Text.lineStart text (offset - 1), offset⟩)
    line.isEmpty || line.getLast? == some '\x7b'

/-- The span to delete. Whole lines take the blank line after them along where otherwise a blank
line would open a block or follow another one. -/
def absorbing (text : List Char) (r : Removal) : Span :=
  let stop := r.span.stop
  let next := Text.lineEnd text stop
  if r.wholeLines ∧ stop < Text.byteLength text ∧ Text.allBlank (Text.slice text ⟨stop, next⟩)
      ∧ followsOpening text r.span.start then
    ⟨r.span.start, next⟩
  else r.span

end Removal

/-- The replacements that remove fields, and the spans that are gone after them. -/
structure FieldRemovals where
  replacements : List Replacement
  gone : List Span

namespace Delegation

variable (d : Delegation)

/-- The groups of the fields that move, in order. -/
def movedGroups : List Nat :=
  ((d.fields.entries.map fun entry => entry.2.field.group).mergeSort (· ≤ ·)).eraseDups

/-- The fields of a group that move. -/
def movedOf (group : Nat) : List Field :=
  (d.fields.entries.map (·.2.field)).filter (·.group == group)

def movesField (f : Field) : Bool := (d.movedOf f.group).any (·.name == f.name)

/-- The variables of a declaration that stay, separated by commas. -/
def survivors : List Field → List Piece
  | [] => []
  | [f] => [.source f.declarator]
  | f :: g :: rest => .source f.declarator :: .text ", " :: survivors (g :: rest)

/-- The declaration of a group with only the variables that stay. -/
def shrinkGroup (group : Nat) : List Replacement :=
  let all := d.source.model.fieldGroup group
  match all.head?, all.getLast? with
  | some first, some last =>
    [⟨⟨first.declarator.start, last.declarator.stop⟩, survivors (all.filter (!d.movesField ·))⟩]
  | _, _ => []

def declarationRemoval (f : Field) : Except ExtractionError Removal :=
  match d.source.classBody?, d.source.member? f.declaration with
  | some body, some declaration =>
    .ok (.ofDeclaration d.source.text declaration.node body.node.children)
  | _, _ => .error (d.notFound f.name)

/-- All removals, those of single variables before those of whole declarations. -/
def fieldRemovals : Except ExtractionError FieldRemovals := do
  let groups := d.movedGroups.filter fun group => !(d.source.model.fieldGroup group).isEmpty
  let (shared, whole) := groups.partition fun group =>
    (d.source.model.fieldGroup group).any (!d.movesField ·)
  let removals ← whole.flatMap (fun group => (d.source.model.fieldGroup group).take 1)
    |>.mapM d.declarationRemoval
  let spans := (Removal.joinAll removals).map (·.absorbing d.source.text)
  .ok
    { replacements := shared.flatMap d.shrinkGroup ++ spans.map Replacement.deletion
      gone := shared.flatMap (fun group => (d.movedOf group).map (·.declarator)) ++ spans }

end Delegation

end ClassSplit
