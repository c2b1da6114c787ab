/-
**Sequences and choices.**

A sequence distributes its range over its items: the first item takes one of its candidate ends,
the other items share the rest, and when they cannot, the next end is tried.  An item and a cursor
from which the rest was found impossible are not tried twice within one sequence.  A choice takes
the first alternative that accepts the whole range.

Both are written over a search `parse` for the parts.

Main definitions:

* `Tessera.Query.sequence` — the parts of a sequence;
* `Tessera.Query.choice` — the chosen alternative.
-/

import Tessera.Search.Candidates
import Tessera.Search.State

set_option autoImplicit false

namespace Tessera

/-- A search for a split of a definition over a range. -/
abbrev Parse : Type := DefId → Nat → Nat → Search Split

namespace Query

/-- What one sequence remembers: the search, and the items and cursors that are impossible. -/
abbrev SequenceState : Type := SearchState × Std.HashSet (Nat × Nat)

/-- Distributes the range from `cursor` to `stop` over items; the first of them has number `k` in
the sequence `d`.  The `k`-th of the filters `follows` says where the items from number `k` on may
begin. -/
def sequenceFrom (q : Query) (parse : Parse) (d : DefId) (stop : Nat)
    (follows : Array Filter) :
    List DefId → Nat → Nat → Attempt SequenceState (List Split)
  | [], _, cursor =>
      if cursor = stop then pure []
      else Attempt.onFirst (Search.fail ⟨d, cursor, stop, .trailingContent⟩)
  | item :: items, k, cursor => do
      if ← Attempt.inspect fun s => s.2.contains (k, cursor) then Attempt.reject
      else
        let ends := (q.ends item cursor stop).filter (follows.getD (k + 1) .everywhere).allows
        if ends.isEmpty then Attempt.onFirst (Search.fail ⟨item, cursor, stop, .mismatch⟩)
        else
          Attempt.firstOf
            (fun e => do
              let part ← Attempt.onFirst (parse item cursor e)
              let parts ← sequenceFrom q parse d stop follows items (k + 1) e
              return part :: parts)
            (fun e => Attempt.onFirst (Search.emit (.backtrack d e)))
            (do
              Attempt.update fun s => (s.1, s.2.insert (k, cursor))
              Attempt.reject)
            ends

/-- Where the items from each number on may begin, for a sequence of `count` items over a range. -/
def sequenceFollows (q : Query) (d : DefId) (count start stop : Nat) : Array Filter :=
  (Array.range (count + 1)).map fun k =>
    q.follows (.sequence (q.grammar.resolve d) k) start stop

/-- The split of a sequence. -/
def sequence (q : Query) (parse : Parse) (d : DefId) (items : List DefId) (start stop : Nat) :
    Search Split := fun s =>
  let follows := q.sequenceFollows d items.length start stop
  match q.sequenceFrom parse d stop follows items 0 start (s, ∅) with
  | (.ok parts, s) => (.ok (.sequence ⟨start, stop⟩ parts), s.1)
  | (.error e, s) => (.error e, s.1)

/-- The first of several alternatives that accepts the whole range; the first of them has number
`index` in the choice `d`. -/
def choice (q : Query) (parse : Parse) (d : DefId) (start stop : Nat) :
    List DefId → Nat → Search Split
  | [], _ => Search.fail ⟨d, start, stop, .noAlternative⟩
  | alternative :: alternatives, index =>
      Attempt.orElse
        (if q.prune && !q.grammar.feasible alternative (q.slice start stop) then Attempt.reject
        else do
          let inner ← parse alternative start stop
          return .choice ⟨start, stop⟩ index inner)
        (fun s => choice q parse d start stop alternatives (index + 1) s)

end Query

end Tessera
