/-
**Splits.**

A split says which part of a text belongs to which part of a definition.  It is a tree of byte
ranges: the parts of a sequence, the chosen alternative of a choice, the items and separators of a
loop.

Main definitions:

* `Tessera.Span` — a range of byte offsets;
* `Tessera.Split` — a text split according to a definition.
-/

set_option autoImplicit false

namespace Tessera

/-- A range of byte offsets. -/
structure Span where
  start : Nat
  stop : Nat
  deriving DecidableEq, Repr

/-- A text split according to a definition.  Every part carries its range. -/
inductive Split
  /-- A literal, a pattern or nothing. -/
  | leaf (span : Span)
  | sequence (span : Span) (parts : List Split)
  | choice (span : Span) (index : Nat) (inner : Split)
  /-- An optional part that is not there. -/
  | absent (span : Span)
  /-- An optional part that is there. -/
  | present (span : Span) (inner : Split)
  | loop (span : Span) (items : List Split)
  | separated (span : Span) (items separators : List Split)
  deriving Repr

/-- The range of a split. -/
def Split.span : Split → Span
  | .leaf span => span
  | .sequence span _ => span
  | .choice span _ _ => span
  | .absent span => span
  | .present span _ => span
  | .loop span _ => span
  | .separated span _ _ => span

/-- Whether the range of a split is empty. -/
def Split.isEmpty (s : Split) : Bool := s.span.start == s.span.stop

end Tessera
