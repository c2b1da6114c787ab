/-
**The standard engine.**

The standard engine takes patterns for what they denote: expressions of sets of characters and of
conditions on positions.  It finds the spans of an expression with one motion over the text, and this
motion stands for the automata as well.  For an expression with conditions on Unicode word characters
there are no scans, and for one that is larger than the limit there are none either; the size of an
automaton is estimated by the weight of the expression.

Main definitions:

* `Tessera.offsetsOf` — the byte offsets of a set of positions;
* `Tessera.Engine.standard` — the engine.
-/

import Tessera.Pattern.Denotation
import Tessera.Pattern.Matcher
import Tessera.Pattern.Motion

set_option autoImplicit false

namespace Tessera

open Pattern

/-- The byte offsets of the members of a set of positions; `offset` is that of the first position.
-/
def offsetsOf (positions offset : Nat) : Text → List Nat
  | [] => if positions.testBit 0 then [offset] else []
  | c :: cs =>
      let rest := offsetsOf (positions >>> 1) (offset + c.utf8Size) cs
      if positions.testBit 0 then offset :: rest else rest

namespace Pattern.Regex

/-- The positions that a scan in one direction shows: the ends of prefixes that are spans, or the
beginnings of suffixes that are. -/
def shown (r : Regex) (d : Direction) (text : Text) : Nat :=
  match d with
  | .forward => r.endsFromStart text
  | .backward => r.startsToEnd text

/-- The scan of an expression in one direction; it never gives up. -/
def scan (r : Regex) (d : Direction) : Scan := fun text =>
  let flags := flagged (byteLength text) (offsetsOf (r.shown d text) 0 text)
  some fun n => flags.getD n false

end Pattern.Regex

/-- The engine that takes patterns for what they denote. -/
def Engine.standard : Engine where
  reads pattern := (Regex.ofText? pattern).isSome
  looks pattern := (Regex.ofText? pattern).any Regex.hasLook
  compile? pattern := (Regex.compile? pattern).map Regex.occursIn
  scan? limit d pattern :=
    ((Regex.ofText? pattern).filter fun r =>
      !r.hasUnicodeWord && decide (r.weight ≤ limit)).map fun r => r.scan d

end Tessera
