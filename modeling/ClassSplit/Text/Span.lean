/-!
Half-open spans of byte offsets. A span whose end lies before its start is representable; it holds
no offset, and `Span.Ordered` singles out the others.
-/

namespace ClassSplit

/-- The offsets from `start` up to, but not including, `stop`. -/
structure Span where
  start : Nat
  stop : Nat
  deriving DecidableEq, Inhabited

namespace Span

/-- The empty span at an offset. -/
def point (offset : Nat) : Span := ⟨offset, offset⟩

def length (s : Span) : Nat := s.stop - s.start

def isEmpty (s : Span) : Bool := s.start == s.stop

/-- Whether an offset lies in the span. -/
def holds (s : Span) (offset : Nat) : Bool := s.start ≤ offset && offset < s.stop

/-- Whether the whole of `t` lies in `s`; an empty span on a boundary of `s` lies in it. -/
def covers (s t : Span) : Bool := s.start ≤ t.start && t.stop ≤ s.stop

/-- Whether the two spans share room: an empty span meets another only strictly inside it. -/
def meets (s t : Span) : Bool := s.start < t.stop && t.start < s.stop

def Ordered (s : Span) : Prop := s.start ≤ s.stop

instance (s : Span) : Decidable s.Ordered := inferInstanceAs (Decidable (s.start ≤ s.stop))

theorem covers_refl (s : Span) : s.covers s = true := by
  simp [covers]

theorem covers_trans {s t u : Span} (hst : s.covers t = true) (htu : t.covers u = true) :
    s.covers u = true := by
  simp only [covers, Bool.and_eq_true, decide_eq_true_eq] at *
  omega

theorem meets_comm (s t : Span) : s.meets t = t.meets s := by
  simp [meets, Bool.and_comm]

/-- How a span is written in a message. -/
def describe (s : Span) : String :=
  "TextRange \x7b start: " ++ toString s.start ++ ", end: " ++ toString s.stop ++ " \x7d"

end Span

end ClassSplit
