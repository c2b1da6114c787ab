/-
**Loops.**

The elements of a loop are found one after the other.  Those of a separated loop are items and
separators in turn.  The search stops with success at the end of the range, after an item or with no
element at all, when the number of items is admitted.

The quantifier of the loop orders the candidates for each item: a greedy loop wants many items and
tries short ones first, an empty one last; a lazy loop tries long ones first; a possessive loop
takes the longest alone.  Separators follow their own quantifier.  Once there are enough items, an
empty item of a loop, or an empty item after an empty separator, brings nothing and is left out, so
every search ends.

States from which no continuation was found are not tried twice within one loop.

Main definitions:

* `Tessera.LoopPlan` — what is repeated, how often, and over which range;
* `Tessera.LoopPoint` — what a continuation of a loop depends on;
* `Tessera.Query.extend` — the search for the elements of a loop;
* `Tessera.Query.loop` — the split of a loop.
-/

import Tessera.Search.Composite

set_option autoImplicit false

namespace Tessera

/-- What is repeated, how often, and over which range. -/
structure LoopPlan where
  definition : DefId
  item : DefId
  separator : Option DefId
  repetition : Repetition
  start : Nat
  stop : Nat
  /-- Where what follows an item may begin. -/
  afterItem : Filter
  /-- Where what follows a separator may begin. -/
  afterSeparator : Filter

/-- What a continuation of a loop depends on.  Without a largest number of items, more items than
needed count as just enough. -/
structure LoopPoint where
  cursor : Nat
  started : Bool
  expectsSeparator : Bool
  afterEmptySeparator : Bool
  count : Nat
  deriving DecidableEq, Hashable, Repr

/-- What one loop remembers: the search, and the points that are impossible. -/
abbrev LoopState : Type := SearchState × Std.HashSet LoopPoint

namespace LoopPlan

/-- Whether the next element is a separator, after the given elements. -/
def expectsSeparator (p : LoopPlan) (trail : List Split) : Bool :=
  p.separator.isSome && trail.length % 2 == 1

/-- Whether the last element is a separator. -/
def endsWithSeparator (p : LoopPlan) (trail : List Split) : Bool :=
  p.separator.isSome && !trail.isEmpty && !p.expectsSeparator trail

/-- Whether the last element is an empty separator.  The latest element stands first. -/
def endsWithEmptySeparator (p : LoopPlan) (trail : List Split) : Bool :=
  p.endsWithSeparator trail && trail.head?.any Split.isEmpty

/-- The number of items among the elements. -/
def count (p : LoopPlan) (trail : List Split) : Nat :=
  if p.separator.isSome then (trail.length + 1) / 2 else trail.length

/-- What a continuation after the given elements depends on. -/
def point (p : LoopPlan) (trail : List Split) (cursor : Nat) : LoopPoint where
  cursor := cursor
  started := !trail.isEmpty
  expectsSeparator := p.expectsSeparator trail
  afterEmptySeparator := p.endsWithEmptySeparator trail
  count :=
    match p.repetition.max with
    | some _ => p.count trail
    | none => Nat.min (p.count trail) p.repetition.min

/-- Whether the elements are a complete loop when the cursor is at the given offset. -/
def isComplete (p : LoopPlan) (trail : List Split) (cursor : Nat) : Bool :=
  cursor == p.stop && !p.endsWithSeparator trail && p.repetition.admits (p.count trail)

/-- Whether another item is needed. -/
def belowMin (p : LoopPlan) (trail : List Split) : Bool :=
  decide (p.count trail < p.repetition.min)

/-- Whether no further item is admitted, and the next element would be one or lead to one. -/
def isFull (p : LoopPlan) (trail : List Split) : Bool :=
  !p.endsWithSeparator trail && p.repetition.max.any fun max => decide (max ≤ p.count trail)

/-- The definition of the next element. -/
def element (p : LoopPlan) (trail : List Split) : DefId :=
  match p.separator with
  | some separator => if p.expectsSeparator trail then separator else p.item
  | none => p.item

/-- The order in which the ends of an item are tried, given in ascending order. -/
def itemOrder (p : LoopPlan) (cursor : Nat) (ends : List Nat) : List Nat :=
  match p.repetition.quantifier with
  | .greedy =>
      match ends with
      | e :: f :: rest => if e = cursor then f :: rest ++ [e] else ends
      | _ => ends
  | .lazy => Quantifier.greedy.order ends
  | .possessive => Quantifier.possessive.order ends

/-- Whether an element that ends at `e` brings the loop forward or is needed. -/
def isUseful (p : LoopPlan) (trail : List Split) (cursor e : Nat) : Bool :=
  if p.separator.isSome && !p.endsWithEmptySeparator trail then true
  else decide (cursor < e) || p.belowMin trail

/-- Where what follows the next element may begin. -/
def follows (p : LoopPlan) (trail : List Split) : Filter :=
  if p.expectsSeparator trail then p.afterSeparator else p.afterItem

/-- The items of a separated loop among its elements. -/
def items : List Split → List Split
  | [] => []
  | [item] => [item]
  | item :: _ :: rest => item :: items rest

/-- The separators of a separated loop among its elements. -/
def separators : List Split → List Split
  | [] => []
  | [_] => []
  | _ :: separator :: rest => separator :: separators rest

/-- The split that the elements, in order, make up. -/
def toSplit (p : LoopPlan) (elements : List Split) : Split :=
  if p.separator.isSome then
    .separated ⟨p.start, p.stop⟩ (items elements) (separators elements)
  else .loop ⟨p.start, p.stop⟩ elements

/-- More elements than a search ever finds in a row: an item is needed or it brings the loop
forward, and so does a separator with the item after it. -/
def fuel (p : LoopPlan) : Nat := 2 * (p.repetition.min + (p.stop - p.start)) + 4

end LoopPlan

namespace Query

/-- The ends to try for the next element of a loop, in order. -/
def loopEnds (q : Query) (p : LoopPlan) (trail : List Split) (cursor : Nat) : List Nat :=
  let element := p.element trail
  let ordered :=
    if p.expectsSeparator trail then q.ends element cursor p.stop
    else p.itemOrder cursor (q.allEnds element cursor p.stop)
  (ordered.filter (p.isUseful trail cursor)).filter (p.follows trail).allows

/-- The failure that is recorded when there is no end to try. -/
def loopFailure (p : LoopPlan) (trail : List Split) (cursor : Nat) : Failure :=
  if cursor = p.stop && !p.endsWithSeparator trail && p.belowMin trail then
    ⟨p.definition, cursor, p.stop, .tooFewItems⟩
  else ⟨p.element trail, cursor, p.stop, .mismatch⟩

/-- Searches for the elements of a loop that follow those of `trail`, which ends at `cursor` and has
the latest element first.  Gives all elements in order. -/
def extend (q : Query) (parse : Parse) (p : LoopPlan) :
    Nat → List Split → Nat → Attempt LoopState (List Split)
  | 0, _, _ => Attempt.stop .outOfFuel
  | fuel + 1, trail, cursor =>
      if p.isComplete trail cursor then pure trail.reverse
      else do
        let giveUp : Attempt LoopState (List Split) := do
          Attempt.update fun s => (s.1, s.2.insert (p.point trail cursor))
          Attempt.reject
        if ← Attempt.inspect fun s => s.2.contains (p.point trail cursor) then Attempt.reject
        else if p.isFull trail then
          if cursor < p.stop then
            Attempt.onFirst (Search.note ⟨p.definition, cursor, p.stop, .tooManyItems⟩)
          giveUp
        else
          let ends := q.loopEnds p trail cursor
          if ends.isEmpty then Attempt.onFirst (Search.note (loopFailure p trail cursor))
          Attempt.firstOf
            (fun e => do
              let part ← Attempt.onFirst (parse (p.element trail) cursor e)
              extend q parse p fuel (part :: trail) e)
            (fun e => Attempt.onFirst (Search.emit (.backtrack p.definition e)))
            giveUp
            ends

/-- What is repeated over a range. -/
def loopPlan (q : Query) (d item : DefId) (separator : Option DefId) (repetition : Repetition)
    (start stop : Nat) : LoopPlan where
  definition := d
  item := item
  separator := separator
  repetition := repetition
  start := start
  stop := stop
  afterItem :=
    if separator.isSome then q.follows (.afterItem (q.grammar.resolve d)) start stop
    else q.follows (.loop (q.grammar.resolve d)) start stop
  afterSeparator := q.follows (.afterSeparator (q.grammar.resolve d)) start stop

/-- The split of a loop. -/
def loop (q : Query) (parse : Parse) (p : LoopPlan) : Search Split := fun s =>
  match q.extend parse p p.fuel [] p.start (s, ∅) with
  | (.ok elements, s) => (.ok (p.toSplit elements), s.1)
  | (.error e, s) => (.error e, s.1)

end Query

end Tessera
