/-
**Tables of names.**

A name table gives every name a number, counting up from zero in the order in which names are first
seen.  Rules refer to field names by number, so they stay small; the text is looked up only when a
name is printed or compared with one that a caller gives.  A number has 32 bits, so a table has numbers
for that many names only.

Main definitions:

* `Tessera.NameTable` — the names in order, with the number of each;
* `Tessera.NameTable.intern` — the number of a name, added on first sight;
* `Tessera.NameTable.find?`, `Tessera.NameTable.resolve?` — number of a name, name of a number.
-/

import Std.Data.HashMap

set_option autoImplicit false

namespace Tessera

/-- The number of a name in a table. -/
abbrev Symbol := Nat

/-- How many numbers there are: `2 ^ 32`. -/
def symbolCount : Nat := UInt32.size

/-- A symbol is written as a dollar sign and its number. -/
def Symbol.display (s : Symbol) : String := s!"${s}"

/-- The names seen so far, in order, and the number of each. -/
structure NameTable where
  names : Array String
  numbers : Std.HashMap String Symbol

namespace NameTable

/-- The table without names. -/
def empty : NameTable := ⟨#[], ∅⟩

/-- The number of a name, and the table in which it has that number. -/
def intern (t : NameTable) (name : String) : Symbol × NameTable :=
  match t.numbers[name]? with
  | some s => (s, t)
  | none =>
      let s := t.names.size % symbolCount
      (s, ⟨t.names.push name, t.numbers.insert name s⟩)

/-- The number of a name that was seen before. -/
def find? (t : NameTable) (name : String) : Option Symbol := t.numbers[name]?

/-- The name behind a number. -/
def resolve? (t : NameTable) (s : Symbol) : Option String := t.names[s]?

/-- The number of names. -/
def size (t : NameTable) : Nat := t.names.size

/-- Whether no name was seen. -/
def isEmpty (t : NameTable) : Bool := t.size == 0

end NameTable

end Tessera
