/-
**Colours of traces.**

A fragment of output is coloured by what it stands for.  A palette that is switched off leaves every
text as it is.

Main definitions:

* `Tessera.Role` — what a fragment stands for;
* `Tessera.Palette` — a palette, on or off;
* `Tessera.Palette.paint` — a text between the code of its role and the reset code.
-/

set_option autoImplicit false

namespace Tessera

/-- What a fragment of output stands for. -/
inductive Role
  /-- Definitions and field names. -/
  | definition
  /-- Contents of nodes and candidate texts. -/
  | content
  /-- Marks of rejection. -/
  | rejected
  /-- Byte offsets and ranges. -/
  | offset
  deriving DecidableEq, Repr

/-- The terminal code that opens a role. -/
def Role.code : Role → String
  | .definition => "\x1b[34m"
  | .content => "\x1b[32m"
  | .rejected => "\x1b[31m"
  | .offset => "\x1b[2m"

/-- A palette that is on or off. -/
structure Palette where
  enabled : Bool
  deriving DecidableEq, Repr

namespace Palette

/-- The terminal code that ends every role. -/
def reset : String := "\x1b[0m"

/-- The code that opens a role, empty when the palette is off. -/
def code (p : Palette) (role : Role) : String :=
  if p.enabled then role.code else ""

/-- A text in the colour of its role. -/
def paint (p : Palette) (role : Role) (text : String) : String :=
  if p.enabled then p.code role ++ text ++ reset else text

@[simp] theorem paint_off (role : Role) (text : String) : paint ⟨false⟩ role text = text := rfl

end Palette

end Tessera
