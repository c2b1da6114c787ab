/-
**Listings of grammars.**

A listing shows one definition after the other, each with its number and what it stands for.

Main definitions:

* `Tessera.Grammar.describe` — what a rule stands for, in words;
* `Tessera.Grammar.listing` — the listing of a grammar.
-/

import Tessera.Grammar.Basic
import Tessera.Text.Quoted

set_option autoImplicit false

namespace Tessera

/-- What a quantifier adds to a rule in a listing; nothing for the greedy one. -/
def Quantifier.suffix : Quantifier → String
  | .greedy => ""
  | .lazy => " lazy"
  | .possessive => " possessive"

/-- The bounds of a repetition with its quantifier. -/
def Repetition.listed (r : Repetition) : String := r.display ++ r.quantifier.suffix

/-- Definitions with a separator between them. -/
def listDefs (separator : String) (ds : List DefId) : String :=
  String.intercalate separator (ds.map DefId.display)

namespace Grammar

/-- What a rule stands for, in words. -/
def describe (g : Grammar) : Rule → String
  | .literal text => "lit " ++ String.ofList (quote text)
  | .pattern source => "pat /" ++ String.ofList source ++ "/"
  | .empty => "empty"
  | .sequence items => "seq(" ++ listDefs " " items ++ ")"
  | .choice alternatives => "choice(" ++ listDefs " | " alternatives ++ ")"
  | .optional item quantifier => s!"opt({item.display})" ++ quantifier.suffix
  | .loop item repetition => s!"loop({item.display}) " ++ repetition.listed
  | .separated item separator default repetition =>
      let body := s!"sep({item.display} by {separator.display}) " ++ repetition.listed
      match default with
      | some text => body ++ " default " ++ String.ofList (quote text)
      | none => body
  | .alias target none => s!"alias({target.display})"
  | .alias target (some name) =>
      "field " ++ (g.names.resolve? name).getD "" ++ s!": {target.display}"
  | .forward target => s!"forward({target.display})"
  | .withDefault content target =>
      "default(" ++ String.ofList (quote content) ++ s!", {target.display})"

/-- One line of a listing. -/
def listingLine (g : Grammar) (d : DefId) : String :=
  s!"{d.display} = " ++ g.describe (g.rule d) ++ "\n"

/-- All definitions of a grammar, one after the other. -/
def listing (g : Grammar) : String :=
  String.join ((List.range g.size).map g.listingLine)

end Grammar

end Tessera
