/-
**Lines and columns.**

A location names a position of a text by line and column, both counted from one.  A line feed, a
carriage return, and either of them followed by the other are one line break each; breaks are found
from left to right, so a run of breaks pairs up greedily.  Columns count characters.

Main definitions:

* `Tessera.Location` — a line and a column;
* `Tessera.Location.after` — the location reached by reading some text;
* `Tessera.lineColumn` — the location of a byte offset.
-/

import Tessera.Text.Bytes

set_option autoImplicit false

namespace Tessera

/-- A line and a column, both counted from one. -/
structure Location where
  line : Nat
  column : Nat
  deriving DecidableEq, Repr

namespace Location

/-- The first location of a text. -/
def origin : Location := ⟨1, 1⟩

/-- The first location of the next line. -/
def nextLine (l : Location) : Location := ⟨l.line + 1, 1⟩

/-- The next location on the same line. -/
def nextColumn (l : Location) : Location := ⟨l.line, l.column + 1⟩

/-- The location reached from `l` by reading the given text. -/
def after (l : Location) : Text → Location
  | [] => l
  | '\n' :: '\r' :: cs => after l.nextLine cs
  | '\r' :: '\n' :: cs => after l.nextLine cs
  | c :: cs => if c = '\n' ∨ c = '\r' then after l.nextLine cs else after l.nextColumn cs

/-- Line and column with a colon between them. -/
def display (l : Location) : String := s!"{l.line}:{l.column}"

end Location

/-- The location of a byte offset.  An offset past the end, or inside a character, counts as the
nearest boundary before it. -/
def lineColumn (text : Text) (offset : Nat) : Location :=
  Location.origin.after (takeBytes offset text)

end Tessera
