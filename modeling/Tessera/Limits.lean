/-
**Limits.**

Two numbers bound the work on a grammar.  The pattern depth says how often a definition may re-enter
itself while its pattern is written out.  The recursion limit, when there is one, bounds the nesting
of the search for a split, which is otherwise bounded only by the text.

Main definitions:

* `Tessera.Limits` — the two limits.
-/

set_option autoImplicit false

namespace Tessera

/-- The limits of a grammar. -/
structure Limits where
  /-- How often a definition may re-enter itself in its pattern. -/
  patternDepth : Nat := 10
  /-- The deepest nesting of the search, when it is bounded. -/
  recursionLimit : Option Nat := none
  deriving DecidableEq, Repr

end Tessera
