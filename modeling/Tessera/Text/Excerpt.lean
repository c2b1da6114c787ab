/-
**Excerpts that fit on one line.**

Messages, outlines and traces quote pieces of text.  A piece that is too long is cut and the cut is
marked with an ellipsis; raw line breaks are spelled out.

Main definitions:

* `Tessera.truncate` — a text cut to a number of characters;
* `Tessera.escapeBreaks` — a text with its line feeds and carriage returns spelled out.
-/

import Tessera.Text.Bytes

set_option autoImplicit false

namespace Tessera

/-- The mark of a cut. -/
def ellipsis : Char := '…'

/-- The text itself when it has at most `limit` characters, else its first `limit - 1` characters
followed by the mark of a cut. -/
def truncate (text : Text) (limit : Nat) : Text :=
  if text.length ≤ limit then text else text.take (limit - 1) ++ [ellipsis]

/-- A line feed is written as a backslash and `n`, a carriage return as a backslash and `r`. -/
def escapeBreaks : Text → Text
  | [] => []
  | '\n' :: cs => '\\' :: 'n' :: escapeBreaks cs
  | '\r' :: cs => '\\' :: 'r' :: escapeBreaks cs
  | c :: cs => c :: escapeBreaks cs

end Tessera
