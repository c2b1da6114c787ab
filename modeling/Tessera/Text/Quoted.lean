/-
**Quoted texts.**

A quoted text stands between double quotes and shows every character unambiguously: quotes and
backslashes carry a backslash, a few controls have short names, and any other character that would
not be seen on its own, a combining mark included, is written by its number.

Main definitions:

* `Tessera.quoteChar` — the form of one character inside a quoted text;
* `Tessera.quote` — the quoted form of a text.
-/

import Tessera.Text.Bytes
import Tessera.Unicode.Property

set_option autoImplicit false

namespace Tessera

/-- Whether a character is shown as it is inside a quoted text. -/
def isShown (c : Char) : Bool :=
  printable.contains c.toNat && !graphemeExtend.contains c.toNat

/-- A character by its number: `\u`, and the number in hexadecimal between braces. -/
def numberedChar (c : Char) : Text :=
  ['\\', 'u', '\x7b'] ++ Nat.toDigits 16 c.toNat ++ ['\x7d']

/-- The form of one character inside a quoted text. -/
def quoteChar (c : Char) : Text :=
  match c with
  | '"' => ['\\', '"']
  | '\\' => ['\\', '\\']
  | '\n' => ['\\', 'n']
  | '\r' => ['\\', 'r']
  | '\t' => ['\\', 't']
  | '\x00' => ['\\', '0']
  | c => if (c.toNat < 127 && 32 ≤ c.toNat) || isShown c then [c] else numberedChar c

/-- The quoted form of a text. -/
def quote (text : Text) : Text :=
  '"' :: text.flatMap quoteChar ++ ['"']

end Tessera
