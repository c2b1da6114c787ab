/-
**Properties by name.**

Patterns ask for characters by the name of a property, or by a property and one of its values.  Names
are compared without regard to case, blanks, hyphens and underscores.

Main definitions:

* `Tessera.namedProperty?` — the characters behind the name of a property;
* `Tessera.propertyWithValue?` — the characters for which a property has a value.
-/

import Tessera.Unicode.Age
import Tessera.Unicode.Breaks

set_option autoImplicit false

namespace Tessera

/-- The form in which names are compared: lower case, without a leading `is`, and without blanks,
hyphens, underscores and characters beyond ASCII.  The name `isc` keeps its beginning. -/
def normalName (name : String) : String :=
  let kept (cs : List Char) : List Char :=
    (cs.filter fun c =>
      decide (c.toNat < 128) && c != ' ' && c != '_' && c != '-').map Char.toLower
  match name.toList with
  | i :: s :: rest =>
      if i.toLower = 'i' ∧ s.toLower = 's' then
        if kept rest = ['c'] then "isc" else String.ofList (kept rest)
      else String.ofList (kept (i :: s :: rest))
  | cs => String.ofList (kept cs)

/-- The characters behind the name of a property that is given alone: a binary property, a general
category or a script, in this order. -/
def namedProperty? (name : String) : Option CodePointSet :=
  let name := normalName name
  (binaryProperty? name).or ((generalCategory? name).or (script? name))

/-- How the values of a property are looked up, by the name of the property. -/
def valuesOf? (property : String) : Option (String → Option CodePointSet) :=
  match property with
  | "gc" | "generalcategory" => some generalCategory?
  | "sc" | "script" => some script?
  | "scx" | "scriptextensions" => some scriptExtension?
  | "age" => some age?
  | "gcb" | "graphemeclusterbreak" => some graphemeBreak?
  | "wb" | "wordbreak" => some wordBreak?
  | "sb" | "sentencebreak" => some sentenceBreak?
  | _ => none

/-- The characters for which a property has the given value. -/
def propertyWithValue? (property value : String) : Option CodePointSet :=
  (valuesOf? (normalName property)).bind fun values => values (normalName value)

end Tessera
