/-
**Strict searches.**

A search looks many things up: definitions in the tables of the grammar, the text between two
offsets, the flag of an offset.  The searches of `Tessera.Query` are total, so a lookup that finds
nothing goes on with a default, an offset inside of a character is rounded, and a rule that only
stands for another one is given up.

A *strict* search is the same search with a fault in each of these places: where something must be
there and is not, it ends with nothing at all.  A fault is not an abort, for no other candidate is
tried after it.

Main definitions:

* `Tessera.StrictAttempt` — attempts that may come upon a fault;
* `Tessera.Strict.behind`, `shape`, `matcher` — lookups in the tables of a grammar;
* `Tessera.Strict.ends`, `allows` — the candidates for an item, and the flags that filter them;
* `Tessera.Strict.parseShape`, `Tessera.Strict.parse` — the strict search for a split;
* `Tessera.Strict.resolve` — the strict search for the split of a whole text.
-/

import Tessera.Search.Resolve

set_option autoImplicit false

namespace Tessera

/-! ### Attempts with faults -/

/-- An attempt over a state `σ` to produce an `α`.  It gives nothing when it comes upon a fault. -/
def StrictAttempt (σ α : Type) : Type := σ → Option (Except Abort α × σ)

namespace StrictAttempt

variable {σ τ α β : Type}

/-- An attempt that cannot come upon a fault. -/
def lift (a : Attempt σ α) : StrictAttempt σ α := fun s => some (a s)

/-- What must be there.  It is a fault when it is not. -/
def demand (x : Option α) : StrictAttempt σ α := fun s => x.map fun a => (.ok a, s)

/-- One attempt after the other, if the first succeeds. -/
def andThen (first : StrictAttempt σ α) (next : α → StrictAttempt σ β) : StrictAttempt σ β :=
  fun s =>
    match first s with
    | some (.ok a, s) => next a s
    | some (.error e, s) => some (.error e, s)
    | none => none

instance : Monad (StrictAttempt σ) where
  pure a := lift (Attempt.succeed a)
  bind := andThen

/-- A second attempt when the first one is rejected. -/
def orElse (first second : StrictAttempt σ α) : StrictAttempt σ α := fun s =>
  match first s with
  | some (.ok a, s) => some (.ok a, s)
  | some (.error .rejected, s) => second s
  | some (.error e, s) => some (.error e, s)
  | none => none

/-- Tries one candidate after the other until one is not rejected.  `undo` follows every rejection,
and `otherwise` follows the last one. -/
def firstOf (attempt : α → StrictAttempt σ β) (undo : α → StrictAttempt σ Unit)
    (otherwise : StrictAttempt σ β) : List α → StrictAttempt σ β
  | [] => otherwise
  | a :: as => orElse (attempt a) (undo a >>= fun _ => firstOf attempt undo otherwise as)

/-- An attempt on the first part of a state. -/
def onFirst (a : StrictAttempt σ α) : StrictAttempt (σ × τ) α := fun (s, u) =>
  (a s).map fun (r, s) => (r, (s, u))

end StrictAttempt

/-- Strict attempts that remember. -/
abbrev StrictSearch (α : Type) : Type := StrictAttempt SearchState α

/-- A strict search for a split of a definition over a range. -/
abbrev StrictParse : Type := DefId → Nat → Nat → StrictSearch Split

namespace Strict

open StrictAttempt

/-! ### The tables of a grammar -/

/-- The structural definition behind a definition. -/
def behind (g : Grammar) (d : DefId) : Option DefId := g.resolved[d]?

/-- The structural rule that a definition behaves as. -/
def shape (g : Grammar) (d : DefId) : Option Rule := do g.rules[← behind g d]?

/-- The matcher of the pattern of a definition. -/
def matcher (g : Grammar) (d : DefId) : Option Matcher :=
  if d < g.size then some (g.acceptors.definition d) else none

/-- The matcher of what may follow a position. -/
def tail (g : Grammar) (t : Tail) : Option Matcher :=
  if t.place.1 < g.size then some (g.acceptors.tail t) else none

/-- Whether a text is exactly a match of the pattern leaf behind a definition. -/
def leafMatches (g : Grammar) (d : DefId) (text : Text) : Option Bool := do
  let leaf ← behind g d
  if leaf < g.size then some (g.acceptors.leaf leaf text) else none

/-- The definitions from `d` to the structural definition behind it, each of which is looked up. -/
def chain (g : Grammar) (d : DefId) : Option (List DefId) :=
  if (g.chain d).all g.contains then some (g.chain d) else none

/-! ### Candidates -/

/-- The members of a list that pass a test, each of which must have an answer. -/
def retain {α : Type} (test : α → Option Bool) : List α → Option (List α)
  | [] => some []
  | a :: as => do
      let passes ← test a
      let rest ← retain test as
      return if passes then a :: rest else rest

/-- Whether what follows may begin at an offset.  There must be a flag for it. -/
def allows : Filter → Nat → Option Bool
  | .everywhere, _ => some true
  | .flagged start flags, offset =>
      if start ≤ offset then flags.get[offset - start]? else none

/-- The ends of an item that begins at `cursor`, in ascending order. -/
def allEnds (q : Query) (item : DefId) (cursor stop : Nat) : Option (List Nat) := do
  let m ← matcher q.grammar item
  let rest ← slice? q.text cursor stop
  return (m.prefixEnds rest).map (cursor + ·)

/-- The ends of an item that begins at `cursor`, in the order in which they are tried. -/
def ends (q : Query) (item : DefId) (cursor stop : Nat) : Option (List Nat) := do
  let all ← allEnds q item cursor stop
  let rule ← shape q.grammar item
  return (rule.quantifier?.getD .greedy).order all

/-- Where what follows a candidate may begin, over the range from `start` to `stop`. -/
def follows (q : Query) (t : Tail) (start stop : Nat) : Option Filter :=
  if q.prune then do
    let m ← tail q.grammar t
    let rest ← slice? q.text start stop
    return .flagged start ⟨fun _ => m.suffixStarts rest⟩
  else some .everywhere

/-! ### Sequences and choices -/

/-- Distributes the range from `cursor` to `stop` over items; the first of them has number `k` in
the sequence `d`.  The `k`-th of the filters says where the items from number `k` on may begin. -/
def sequenceFrom (q : Query) (parse : StrictParse) (d : DefId) (stop : Nat)
    (filters : Array Filter) :
    List DefId → Nat → Nat → StrictAttempt Query.SequenceState (List Split)
  | [], _, cursor =>
      if cursor = stop then pure []
      else lift (Attempt.onFirst (Search.fail ⟨d, cursor, stop, .trailingContent⟩))
  | item :: items, k, cursor => do
      if ← lift (Attempt.inspect fun s => s.2.contains (k, cursor)) then lift Attempt.reject
      else
        let all ← demand (ends q item cursor stop)
        let filter ← demand filters[k + 1]?
        let ends ← demand (retain (allows filter) all)
        if ends.isEmpty then lift (Attempt.onFirst (Search.fail ⟨item, cursor, stop, .mismatch⟩))
        else
          firstOf
            (fun e => do
              let part ← onFirst (parse item cursor e)
              let parts ← sequenceFrom q parse d stop filters items (k + 1) e
              return part :: parts)
            (fun e => lift (Attempt.onFirst (Search.emit (.backtrack d e))))
            (lift (do
              Attempt.update fun s => (s.1, s.2.insert (k, cursor))
              Attempt.reject))
            ends

/-- Where the items from each number on may begin, for a sequence of `count` items over a range. -/
def sequenceFollows (q : Query) (d : DefId) (count start stop : Nat) : Option (Array Filter) := do
  let resolved ← behind q.grammar d
  let filters ← (List.range (count + 1)).mapM fun k => follows q (.sequence resolved k) start stop
  return filters.toArray

/-- The split of a sequence. -/
def sequence (q : Query) (parse : StrictParse) (d : DefId) (items : List DefId)
    (start stop : Nat) : StrictSearch Split := fun s => do
  let filters ← sequenceFollows q d items.length start stop
  match ← sequenceFrom q parse d stop filters items 0 start (s, ∅) with
  | (.ok parts, s) => some (.ok (.sequence ⟨start, stop⟩ parts), s.1)
  | (.error e, s) => some (.error e, s.1)

/-- Whether an alternative is left out because the text of its range cannot match. -/
def isHopeless (q : Query) (alternative : DefId) (start stop : Nat) : Option Bool :=
  if q.prune then do
    let m ← matcher q.grammar alternative
    let text ← slice? q.text start stop
    return !m.whole text
  else some false

/-- The first of several alternatives that accepts the whole range; the first of them has number
`index` in the choice `d`. -/
def choice (q : Query) (parse : StrictParse) (d : DefId) (start stop : Nat) :
    List DefId → Nat → StrictSearch Split
  | [], _ => lift (Search.fail ⟨d, start, stop, .noAlternative⟩)
  | alternative :: alternatives, index =>
      orElse
        (do
          if ← demand (isHopeless q alternative start stop) then lift Attempt.reject
          else
            let inner ← parse alternative start stop
            return .choice ⟨start, stop⟩ index inner)
        (fun s => choice q parse d start stop alternatives (index + 1) s)

/-! ### Loops -/

/-- Where what follows the next element may begin.  A loop without separators has no filter for
what follows a separator. -/
def elementFollows (p : LoopPlan) (trail : List Split) : Option Filter :=
  if p.expectsSeparator trail then
    if p.separator.isSome then some p.afterSeparator else none
  else some p.afterItem

/-- The ends of the next element of a loop, in the order in which they are tried. -/
def elementEnds (q : Query) (p : LoopPlan) (trail : List Split) (cursor : Nat) :
    Option (List Nat) :=
  if p.expectsSeparator trail then ends q (p.element trail) cursor p.stop
  else (allEnds q (p.element trail) cursor p.stop).map (p.itemOrder cursor)

/-- The ends to try for the next element of a loop, in order. -/
def loopEnds (q : Query) (p : LoopPlan) (trail : List Split) (cursor : Nat) :
    Option (List Nat) := do
  let ordered ← elementEnds q p trail cursor
  let filter ← elementFollows p trail
  retain (allows filter) (ordered.filter (p.isUseful trail cursor))

/-- Searches for the elements of a loop that follow those of `trail`, which ends at `cursor` and has
the latest element first.  Gives all elements in order. -/
def extend (q : Query) (parse : StrictParse) (p : LoopPlan) :
    Nat → List Split → Nat → StrictAttempt LoopState (List Split)
  | 0, _, _ => lift (Attempt.stop .outOfFuel)
  | fuel + 1, trail, cursor =>
      if p.isComplete trail cursor then pure trail.reverse
      else do
        let giveUp : Attempt LoopState (List Split) := do
          Attempt.update fun s => (s.1, s.2.insert (p.point trail cursor))
          Attempt.reject
        if ← lift (Attempt.inspect fun s => s.2.contains (p.point trail cursor)) then
          lift Attempt.reject
        else if p.isFull trail then
          if cursor < p.stop then
            lift (Attempt.onFirst (Search.note ⟨p.definition, cursor, p.stop, .tooManyItems⟩))
          lift giveUp
        else
          let ends ← demand (loopEnds q p trail cursor)
          if ends.isEmpty then
            lift (Attempt.onFirst (Search.note (Query.loopFailure p trail cursor)))
          firstOf
            (fun e => do
              let part ← onFirst (parse (p.element trail) cursor e)
              extend q parse p fuel (part :: trail) e)
            (fun e => lift (Attempt.onFirst (Search.emit (.backtrack p.definition e))))
            (lift giveUp)
            ends

/-- What is repeated over a range. -/
def loopPlan (q : Query) (d item : DefId) (separator : Option DefId) (repetition : Repetition)
    (start stop : Nat) : Option LoopPlan := do
  let resolved ← behind q.grammar d
  let afterItem ←
    follows q (if separator.isSome then .afterItem resolved else .loop resolved) start stop
  let afterSeparator ← follows q (.afterSeparator resolved) start stop
  return ⟨d, item, separator, repetition, start, stop, afterItem, afterSeparator⟩

/-- The split of a loop. -/
def loop (q : Query) (parse : StrictParse) (p : LoopPlan) : StrictSearch Split := fun s => do
  match ← extend q parse p p.fuel [] p.start (s, ∅) with
  | (.ok elements, s) => some (.ok (p.toSplit elements), s.1)
  | (.error e, s) => some (.error e, s.1)

/-! ### Definitions -/

/-- Tries the structural rule of a definition on a range.  No structural rule merely stands for
another one. -/
def parseShape (q : Query) (parse : StrictParse) (d : DefId) (start stop : Nat) :
    StrictSearch Split := do
  let text ← demand (slice? q.text start stop)
  match ← demand (shape q.grammar d) with
  | .literal expected => lift (Query.leaf d start stop (text == expected))
  | .pattern _ => do
      let fits ← demand (leafMatches q.grammar d text)
      lift (Query.leaf d start stop fits)
  | .empty => lift (Query.leaf d start stop (start == stop))
  | .sequence items => sequence q parse d items start stop
  | .choice alternatives => choice q parse d start stop alternatives 0
  | .optional item _ =>
      if start = stop then pure (.absent ⟨start, stop⟩)
      else do
        let inner ← parse item start stop
        return .present ⟨start, stop⟩ inner
  | .loop item repetition => do
      let p ← demand (loopPlan q d item none repetition start stop)
      loop q parse p
  | .separated item separator _ repetition => do
      let p ← demand (loopPlan q d item (some separator) repetition start stop)
      loop q parse p
  | .alias _ _ => demand none
  | .forward _ => demand none
  | .withDefault _ _ => demand none

/-- Tries a definition on a range, inside of the parts `active`.  `fuel` bounds the nesting. -/
def parse (q : Query) : Nat → List Part → StrictParse
  | 0, _, _, _, _ => lift (Attempt.stop .outOfFuel)
  | fuel + 1, active, d, start, stop => fun s => do
      let part : Part := ⟨← behind q.grammar d, start, stop⟩
      if s.failed.contains part then some (.error .rejected, s)
      else if active.contains part then some (.error .rejected, s.refuse)
      else if q.grammar.limits.recursionLimit.any fun limit => decide (limit ≤ active.length) then
        some (.error .limitExceeded, s)
      else
        let _ ← slice? q.text start stop
        let before := s.refusals
        match ← parseShape q (parse q fuel (part :: active)) d start stop
            (s.happen (.enter d start stop)) with
        | (.ok split, s) => some (.ok split, s.happen (.accept d start stop))
        | (.error e, s) =>
            let s := s.happen (.reject d start stop)
            if e = .rejected ∧ s.refusals = before then some (.error e, s.giveUp part)
            else some (.error e, s)

/-! ### Whole texts -/

/-- Searches for a split of the whole text. -/
def run (q : Query) (d : DefId) : Option (Except Abort Split × SearchState) :=
  let bytes := byteLength q.text
  parse q (Query.partCount q.grammar.size bytes + 1) [] d 0 bytes SearchState.start

/-- What is reported about a search that found nothing.  The name and the pattern of the definition
that failed are looked up. -/
def report (q : Query) (d : DefId) (s : SearchState) : Option Rejection :=
  let f := s.furthest.getD ⟨d, 0, byteLength q.text, .mismatch⟩
  if f.reason ≠ .noAlternative ∧ q.grammar.size ≤ f.definition then none
  else do
    let _ ← chain q.grammar f.definition
    return q.report d s

/-- Searches for the split of a text without leaving out any candidate; `before` happened already,
latest first. -/
def resolveFully (g : Grammar) (d : DefId) (text : Text) (before : List Event) :
    Option Outcome := do
  let q : Query := ⟨g, text, false⟩
  match ← run q d with
  | (.ok split, s) => some ⟨.ok split, (s.events ++ before).reverse⟩
  | (.error .rejected, s) =>
      let rejection ← report q d s
      return ⟨.error (.rejected rejection), (s.events ++ before).reverse⟩
  | (.error _, s) => some ⟨.error .limitExceeded, (s.events ++ before).reverse⟩

/-- The split of a whole text according to a definition. -/
def resolve (g : Grammar) (d : DefId) (text : Text) : Option Outcome := do
  let m ← matcher g d
  if m.whole text then
    match ← run ⟨g, text, true⟩ d with
    | (.ok split, s) => some ⟨.ok split, s.events.reverse⟩
    | (.error .rejected, s) => resolveFully g d text s.events
    | (.error _, s) => some ⟨.error .limitExceeded, s.events.reverse⟩
  else resolveFully g d text []

end Strict

end Tessera
