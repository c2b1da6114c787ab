/-
**Engines.**

What a pattern means is decided by a library.  It reads patterns, compiles them, and builds automata
that scan a text once in either direction.  An engine is what is asked of such a library; nothing
else of it is known here.

A compiled pattern says whether it matches somewhere in a text, so a pattern is wrapped when it must
match all of a text.  A pattern that nests too deep or grows too large does not compile.  There is no
automaton for a pattern that needs one larger than the limit, and none for some conditions on
positions; which patterns these are is decided for each direction on its own.

Main definitions:

* `Tessera.Scan` — what an automaton shows of a text;
* `Tessera.Engine` — what is asked of a library for patterns;
* `Tessera.wrapWhole`, `Tessera.Engine.whole?` — matching whole texts.
-/

import Tessera.Text.Bytes

set_option autoImplicit false

namespace Tessera

/-- Which way a text is read. -/
inductive Direction
  | forward
  | backward
  deriving DecidableEq

/-- A scan of a text with an automaton: it gives up, or it says at which byte offsets a match is shown,
namely of the prefix that ends there, or backward of the suffix that begins there. -/
abbrev Scan := Text → Option (Nat → Bool)

/-- What is asked of a library for patterns. -/
structure Engine where
  /-- Whether a pattern can be read. -/
  reads : Text → Bool
  /-- Whether a pattern has a condition on a position. -/
  looks : Text → Bool
  /-- A compiled pattern: whether it matches somewhere in a text. -/
  compile? : Text → Option (Text → Bool)
  /-- The scan of a pattern in one direction with an automaton of at most so many bytes. -/
  scan? : Nat → Direction → Text → Option Scan

/-- A pattern wrapped so that it must match a whole text. -/
def wrapWhole (pattern : Text) : Text :=
  ['\\', 'A', '(', '?', ':'] ++ pattern ++ [')', '\\', 'z']

/-- Whether all of a text matches a pattern, if the wrapped pattern compiles. -/
def Engine.whole? (e : Engine) (pattern : Text) : Option (Text → Bool) :=
  e.compile? (wrapWhole pattern)

end Tessera
