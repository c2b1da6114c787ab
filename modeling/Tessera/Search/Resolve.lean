/-
**Resolving a text.**

A definition is resolved over a text by trying candidate splits depth first and going back over
those that are rejected.  A part that is already being tried is not entered again, which cuts off
left recursion; a part that was rejected for reasons of its own is not tried again.

The search first leaves out candidates after which the rest of the text cannot match.  When it
finds nothing it runs once more without leaving any out, so that the failure it reports is the
deepest real one.

Main definitions:

* `Tessera.Query.parse` — the search for a split of a definition over a range;
* `Tessera.Outcome` — a split or the reason why there is none, and what happened;
* `Tessera.resolve` — the split of a whole text.
-/

import Tessera.Search.Loop

set_option autoImplicit false

namespace Tessera

namespace Query

/-- A leaf over a range: it fits or it is a mismatch. -/
def leaf (d : DefId) (start stop : Nat) (fits : Bool) : Search Split :=
  if fits then pure (.leaf ⟨start, stop⟩) else Search.fail ⟨d, start, stop, .mismatch⟩

/-- Tries the structural rule of a definition on a range. -/
def parseShape (q : Query) (parse : Parse) (d : DefId) (start stop : Nat) : Search Split :=
  match q.grammar.shape d with
  | .literal text => leaf d start stop (q.slice start stop == text)
  | .pattern _ => leaf d start stop (q.grammar.leafMatches d (q.slice start stop))
  | .empty => leaf d start stop (start == stop)
  | .sequence items => q.sequence parse d items start stop
  | .choice alternatives => q.choice parse d start stop alternatives 0
  | .optional item _ =>
      if start = stop then pure (.absent ⟨start, stop⟩)
      else do
        let inner ← parse item start stop
        return .present ⟨start, stop⟩ inner
  | .loop item repetition => q.loop parse (q.loopPlan d item none repetition start stop)
  | .separated item separator _ repetition =>
      q.loop parse (q.loopPlan d item (some separator) repetition start stop)
  | .alias _ _ => Attempt.reject
  | .forward _ => Attempt.reject
  | .withDefault _ _ => Attempt.reject

/-- Tries a definition on a range, inside of the parts `active`.  `fuel` bounds the nesting. -/
def parse (q : Query) : Nat → List Part → Parse
  | 0, _, _, _, _ => Attempt.stop .outOfFuel
  | fuel + 1, active, d, start, stop => fun s =>
      let part : Part := ⟨q.grammar.resolve d, start, stop⟩
      if s.failed.contains part then (.error .rejected, s)
      else if active.contains part then
        (.error .rejected, s.refuse)
      else if q.grammar.limits.recursionLimit.any fun limit => decide (limit ≤ active.length) then
        (.error .limitExceeded, s)
      else
        let before := s.refusals
        match q.parseShape (q.parse fuel (part :: active)) d start stop
            (s.happen (.enter d start stop)) with
        | (.ok split, s) => (.ok split, s.happen (.accept d start stop))
        | (.error e, s) =>
            let s := s.happen (.reject d start stop)
            if e = .rejected ∧ s.refusals = before then (.error e, s.giveUp part)
            else (.error e, s)

/-- The number of parts that a definition can be tried on in a text of `bytes` bytes, in a grammar
of `size` definitions. -/
def partCount (size bytes : Nat) : Nat := size * ((bytes + 1) * (bytes + 2) / 2)

/-- Searches for a split of the whole text.  A part is never entered inside of itself, so the number
of parts bounds the nesting. -/
def run (q : Query) (d : DefId) : Except Abort Split × SearchState :=
  let bytes := byteLength q.text
  q.parse (partCount q.grammar.size bytes + 1) [] d 0 bytes SearchState.start

/-- What is reported about a search that found nothing. -/
def report (q : Query) (d : DefId) (s : SearchState) : Rejection :=
  let f := s.furthest.getD ⟨d, 0, byteLength q.text, .mismatch⟩
  { definition := f.definition
    name := q.grammar.name? f.definition
    regex := if f.reason = .noAlternative then none else some (q.grammar.regex f.definition)
    content := q.text
    start := f.start
    stop := f.stop
    reason := f.reason }

end Query

/-- Why a text has no split. -/
inductive SearchError
  /-- The text does not fit. -/
  | rejected (r : Rejection)
  /-- The search nests deeper than the recursion limit allows. -/
  | limitExceeded
  deriving DecidableEq, Repr

/-- What is said about a text without a split. -/
def SearchError.message : SearchError → String
  | .rejected r => r.message
  | .limitExceeded => "recursion limit exceeded"

/-- A split, or the reason why there is none, and what happened on the way, in order. -/
structure Outcome where
  result : Except SearchError Split
  events : List Event

/-- Searches for the split of a text without leaving out any candidate; `before` happened already,
latest first. -/
def resolveFully (g : Grammar) (d : DefId) (text : Text) (before : List Event) : Outcome :=
  let q : Query := ⟨g, text, false⟩
  match q.run d with
  | (.ok split, s) => ⟨.ok split, (s.events ++ before).reverse⟩
  | (.error .rejected, s) =>
      ⟨.error (.rejected (q.report d s)), (s.events ++ before).reverse⟩
  | (.error _, s) => ⟨.error .limitExceeded, (s.events ++ before).reverse⟩

/-- The split of a whole text according to a definition. -/
def resolve (g : Grammar) (d : DefId) (text : Text) : Outcome :=
  if g.feasible d text then
    match Query.run ⟨g, text, true⟩ d with
    | (.ok split, s) => ⟨.ok split, s.events.reverse⟩
    | (.error .rejected, s) => resolveFully g d text s.events
    | (.error _, s) => ⟨.error .limitExceeded, s.events.reverse⟩
  else resolveFully g d text []

end Tessera
