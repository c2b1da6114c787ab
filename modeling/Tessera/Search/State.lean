/-
**The state of a search.**

A search remembers which parts it has found impossible, how often it refused to enter a part that it
was already inside of, the failure that lies furthest into the text, and everything that happened.

Main definitions:

* `Tessera.Part` — a definition and a range of the text;
* `Tessera.Event` — what happens during a search;
* `Tessera.SearchState` — what a search remembers;
* `Tessera.Search` — attempts over that state;
* `Tessera.Search.fail` — a rejection that is recorded.
-/

import Std.Data.HashSet
import Tessera.Rejection
import Tessera.Search.Attempt
import Tessera.Search.Split

set_option autoImplicit false

namespace Tessera

/-- A structural definition that is tried on a range of the text. -/
structure Part where
  definition : DefId
  start : Nat
  stop : Nat
  deriving DecidableEq, Hashable, Repr

/-- A failure: a definition, a range and the reason. -/
structure Failure where
  definition : DefId
  start : Nat
  stop : Nat
  reason : Reason
  deriving DecidableEq, Repr

/-- What happens during a search. -/
inductive Event
  /-- A definition is tried on a range. -/
  | enter (definition : DefId) (start stop : Nat)
  /-- The definition accepted the range. -/
  | accept (definition : DefId) (start stop : Nat)
  /-- The definition did not accept the range. -/
  | reject (definition : DefId) (start stop : Nat)
  /-- The definition gave up a candidate that ends at the offset. -/
  | backtrack (definition : DefId) (offset : Nat)
  deriving DecidableEq, Repr

/-- What a search remembers. -/
structure SearchState where
  /-- The parts that are impossible, whatever is around them. -/
  failed : Std.HashSet Part
  /-- How often a part was refused because the search was already inside of it. -/
  refusals : Nat
  /-- The failure that begins furthest into the text; of several, the latest. -/
  furthest : Option Failure
  /-- What happened, latest first. -/
  events : List Event

/-- What a search remembers at its beginning. -/
def SearchState.start : SearchState := ⟨∅, 0, none, []⟩

/-- Keeps a failure if none begins further into the text. -/
def SearchState.record (s : SearchState) (f : Failure) : SearchState :=
  match s.furthest with
  | none => { s with furthest := some f }
  | some old => if old.start ≤ f.start then { s with furthest := some f } else s

/-- Lets an event happen. -/
def SearchState.happen (s : SearchState) (e : Event) : SearchState :=
  { s with events := e :: s.events }

/-- Counts one more refusal. -/
def SearchState.refuse (s : SearchState) : SearchState := { s with refusals := s.refusals + 1 }

/-- Remembers that a part is impossible. -/
def SearchState.giveUp (s : SearchState) (part : Part) : SearchState :=
  { s with failed := s.failed.insert part }

/-- Attempts that remember. -/
abbrev Search (α : Type) : Type := Attempt SearchState α

namespace Search

variable {α : Type}

/-- Lets an event happen. -/
def emit (e : Event) : Search Unit := Attempt.update fun s => s.happen e

/-- Records a failure. -/
def note (f : Failure) : Search Unit := Attempt.update fun s => s.record f

/-- Records a failure and gives the candidate up. -/
def fail (f : Failure) : Search α := note f >>= fun _ => Attempt.reject

end Search

end Tessera
