/-
**Coloured rows of characters.**

A drawing is a list of rows, and a row is a list of cells: a character and the ink it is drawn in.
Texts are placed at columns; what lies before them is filled with blanks.

Main definitions:

* `Tessera.Ink` — the inks;
* `Tessera.Row.place` — a text placed on a row;
* `Tessera.Row.plainText`, `Tessera.Row.styledText` — a row written without and with terminal codes.
-/

set_option autoImplicit false

namespace Tessera

/-- What a cell is drawn in. -/
inductive Ink
  /-- The ink of the source text and of blanks. -/
  | plain
  /-- The ink of the title. -/
  | title
  /-- The ink of line numbers and of the bar beside the source text. -/
  | frame
  /-- The ink of what is wrong: the level, the underline and the label. -/
  | fault
  deriving DecidableEq, Repr

/-- The terminal codes that begin an ink. -/
def Ink.code : Ink → String
  | .plain => ""
  | .title => "\x1b[1m"
  | .frame => "\x1b[1m\x1b[94m"
  | .fault => "\x1b[1m\x1b[91m"

/-- The terminal codes that end an ink. -/
def Ink.reset : Ink → String
  | .plain => ""
  | _ => "\x1b[0m"

/-- A row of cells. -/
abbrev Row := List (Char × Ink)

namespace Row

/-- A row that is filled with blanks up to a column. -/
def padded (row : Row) (column : Nat) : Row :=
  row ++ List.replicate (column - row.length) (' ', .plain)

/-- A text placed at a column, over what is there. -/
def place (row : Row) (column : Nat) (ink : Ink) (text : List Char) : Row :=
  let row := row.padded column
  row.take column ++ text.map (fun c => (c, ink)) ++ row.drop (column + text.length)

/-- A row without terminal codes. -/
def plainText (row : Row) : String := String.ofList (row.map Prod.fst)

/-- A row with terminal codes wherever the ink changes, after an ink. -/
def styledFrom (ink : Ink) : Row → String
  | [] => ink.reset
  | (c, next) :: rest =>
      (if next = ink then "" else ink.reset ++ next.code) ++ String.singleton c ++
        styledFrom next rest

/-- A row with terminal codes wherever the ink changes. -/
def styledText (row : Row) : String := styledFrom .plain row

end Row

end Tessera
