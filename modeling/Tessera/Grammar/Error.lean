/-
**What can be wrong with a grammar.**

Main definitions:

* `Tessera.GrammarError` — the faults of a table of rules;
* `Tessera.GrammarError.message` — what is said about them.
-/

import Tessera.Search.Resolve
import Tessera.Text.Quoted

set_option autoImplicit false

namespace Tessera

/-- A fault of a grammar. -/
inductive GrammarError
  /-- A reference was declared and never bound. -/
  | unboundReference (d : DefId)
  /-- A reference was bound before. -/
  | alreadyBound (d : DefId)
  /-- Something other than a reference was to be bound. -/
  | notAReference (d : DefId)
  /-- There is no definition of this number. -/
  | unknownDefinition (d : DefId)
  /-- A pattern cannot be read, or it does not compile. -/
  | invalidPattern (pattern : Text)
  /-- The bounds of a repetition leave no room or exclude each other. -/
  | invalidBounds (min : Nat) (max : Option Nat)
  /-- Creating a node would never end: each definition creates a node of the next, and the last one
  of the first. -/
  | infiniteRecursion (cycle : List DefId)
  /-- A chain of indirections leads back to itself. -/
  | unresolvableReference (d : DefId)
  /-- A default content does not fit the definition that it is for. -/
  | invalidDefault (d : DefId) (text : Text) (error : SearchError)
  deriving DecidableEq

namespace GrammarError

/-- The definitions of a cycle with arrows between them, back to the first. -/
def cycleText (cycle : List DefId) : String :=
  String.intercalate " -> " ((cycle ++ cycle.head?.toList).map DefId.display)

/-- What is said about a fault. -/
def message : GrammarError → String
  | unboundReference d => s!"forward reference {d.display} was never bound"
  | alreadyBound d => s!"forward reference {d.display} is already bound"
  | notAReference d => s!"{d.display} is not a forward reference"
  | unknownDefinition d => s!"{d.display} does not belong to this grammar"
  | invalidPattern pattern => "invalid pattern \x60" ++ String.ofList pattern ++ "\x60"
  | invalidBounds min none => s!"invalid repetition bounds {min}.."
  | invalidBounds min (some max) => s!"invalid repetition bounds {min}..={max}"
  | infiniteRecursion cycle => "infinite recursion through " ++ cycleText cycle
  | unresolvableReference d => s!"{d.display} refers to itself without ever reaching a rule"
  | invalidDefault d text error =>
      "default content " ++ String.ofList (quote text) ++ s!" of {d.display} is rejected: " ++
        error.message

end GrammarError

end Tessera
