/-
**Writing patterns out with counters.**

While the pattern of a definition is written out, the patterns of the definitions that it mentions are
written out inside of it, and a definition on a cycle would be written out without an end.  So there is a
counter for each definition, which says how often the definition is being written out at the moment.
It goes up when the definition is entered, and down again when it is left.  A definition that was
entered as often as the limit allows stands for any text; leaves are entered whatever their counter
says.

One scribe may write out many patterns, one after the other, with the same counters.  A scribe keeps a
record of what the counters were after each change.

Main definitions:

* `Tessera.Scribe` — the counters and their record;
* `Tessera.Scribe.Work` — what a scribe does;
* `Tessera.Scribe.write` — writes out the pattern of a definition.
-/

import Tessera.Grammar.Template

set_option autoImplicit false

namespace Tessera

/-- The counters of the definitions, and all earlier ones. -/
structure Scribe where
  /-- How often each definition is being written out at the moment. -/
  counters : Array Nat
  /-- The counters after each change, the latest first. -/
  record : List (Array Nat)
  deriving DecidableEq, Repr

namespace Scribe

/-- What a scribe does to produce an `α`.  It ends with nothing at a definition or a counter that is not
there, at a counter that would go down from zero, and where no more calls may be nested. -/
abbrev Work (α : Type) : Type := StateT Scribe Option α

/-- A scribe for `size` definitions that has not written anything yet. -/
def fresh (size : Nat) : Scribe := ⟨Array.replicate size 0, []⟩

/-- Changes a counter. -/
def put (s : Scribe) (d : DefId) (n : Nat) : Scribe :=
  let counters := s.counters.setIfInBounds d n
  ⟨counters, counters :: s.record⟩

/-- What must be there. -/
def demand {α : Type} (x : Option α) : Work α := fun s => x.map fun a => (a, s)

/-- How often a definition is being written out. -/
def count (d : DefId) : Work Nat := fun s => s.counters[d]?.map fun n => (n, s)

/-- Enters a definition. -/
def enter (d : DefId) : Work Unit := fun s => s.counters[d]?.map fun n => ((), s.put d (n + 1))

/-- Leaves a definition. -/
def leave (d : DefId) : Work Unit := fun s =>
  match s.counters[d]? with
  | some (n + 1) => some ((), s.put d n)
  | _ => none

open Template in
/-- Writes out the pattern of a rule; `inner` writes out the patterns of the definitions that it
mentions. -/
def writeRule (inner : DefId → Work Text) : Rule → Work Text
  | .literal text => pure (Pattern.escape text)
  | .pattern source => pure source
  | .empty => pure []
  | .sequence items => do
      let parts ← items.mapM fun item => do return group (← inner item)
      return parts.flatten
  | .choice [] => pure nothingText
  | .choice (first :: others) => do
      let parts ← (first :: others).mapM fun alternative => do return group (← inner alternative)
      return ['|'].intercalate parts
  | .optional item quantifier => do
      return group (← inner item) ++ ['?'] ++ lazyMark (quantifier == .lazy)
  | .loop item r => do
      return repeatedText (← inner item) r.min r.max (r.quantifier == .lazy)
  | .separated item separator _ r => do
      let item ← inner item
      let separator ← inner separator
      return separatedText item separator r.min r.max (r.quantifier == .lazy)
  | .alias target _ => inner target
  | .forward target => inner target
  | .withDefault _ target => inner target

/-- Writes out the pattern of a definition.  At most `room` calls may be nested, this one included. -/
def write (rules : Array Rule) (limit : Nat) : Nat → DefId → Work Text
  | 0, _ => failure
  | room + 1, d => do
      let rule ← demand rules[d]?
      let entered ← count d
      if !rule.isLeaf && decide (limit ≤ entered) then return Template.wildcardText
      else
        enter d
        let text ← writeRule (write rules limit room) rule
        leave d
        return text

end Scribe

end Tessera
