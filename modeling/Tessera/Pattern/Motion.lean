/-
**Finding the spans that an expression matches.**

A set of positions of a text is kept as a number whose `i`-th bit says whether position `i` is a
member.  An expression moves a set of positions to the set of positions where its spans from there
end, and, backwards, to the set of positions where its spans to there begin.  A text turns an
expression into such a motion once: the leaves become sets of positions, and running the motion
takes a few operations on whole sets.

Every span counts, so no order among the ways to match plays a part.

Main definitions:

* `Tessera.Pattern.Motion` — an expression with the leaves of one text filled in;
* `Tessera.Pattern.Regex.motion` — the motion of an expression on a text;
* `Tessera.Pattern.Motion.run` — where a set of positions moves to.
-/

import Tessera.Pattern.Engine
import Tessera.Pattern.Regex

set_option autoImplicit false

namespace Tessera.Pattern

/-! ### Sets of positions -/

/-- The set of the positions of a text at which `p`, asked with the characters before and after,
holds.  `before` is the character before the text. -/
def positionsWhere (p : Option Char → Option Char → Bool) (before : Option Char) :
    List Char → Nat
  | [] => (p before none).toNat
  | c :: cs => 2 * positionsWhere p (some c) cs + (p before (some c)).toNat

/-- The set of the positions of a text at which a member of `s` stands. -/
def positionsOf (s : CodePointSet) (text : List Char) : Nat :=
  positionsWhere (fun _ after => after.any fun c => s.contains c.toNat) none text

/-! ### Motions -/

/-- An expression with the leaves of one text filled in. -/
inductive Motion
  /-- Stays at every position. -/
  | stay
  /-- Moves past the character at each of the given positions. -/
  | step (positions : Nat)
  /-- Stays at the given positions. -/
  | guard (positions : Nat)
  | seq (first second : Motion)
  | alt (left right : Motion)
  | repeated (body : Motion) (min : Nat) (max : Option Nat)

/-- The motion of an expression on a text. -/
def Regex.motion (text : List Char) : Regex → Motion
  | .empty => .stay
  | .set s => .step (positionsOf s text)
  | .look l => .guard (positionsWhere (fun before after => l.holds before after) none text)
  | .seq a b => .seq (a.motion text) (b.motion text)
  | .alt a b => .alt (a.motion text) (b.motion text)
  | .repeated r min max => .repeated (r.motion text) min max

/-- Applies `f` a number of times; the empty set stays empty. -/
def iterate (f : Nat → Nat) : Nat → Nat → Nat
  | 0, s => s
  | n + 1, s => if s = 0 then 0 else iterate f n (f s)

/-- Adds what `f` reaches in at most the given number of rounds. -/
def spread (f : Nat → Nat) : Nat → Nat → Nat
  | 0, s => s
  | n + 1, s =>
      let t := s ||| f s
      if t = s then s else spread f n t

/-- Where a set of positions moves to in a text of `size` characters. -/
def Motion.run (size : Nat) (d : Direction) : Motion → Nat → Nat
  | .stay, s => s
  | .step positions, s =>
      match d with
      | .forward => (s &&& positions) <<< 1
      | .backward => (s >>> 1) &&& positions
  | .guard positions, s => s &&& positions
  | .seq a b, s =>
      match d with
      | .forward => b.run size d (a.run size d s)
      | .backward => a.run size d (b.run size d s)
  | .alt a b, s => a.run size d s ||| b.run size d s
  | .repeated m min max, s =>
      let step := fun t => m.run size d t
      let more := match max with
        | none => size
        | some max => max - min
      spread step more (iterate step min s)

namespace Regex

/-- The positions where spans from the beginning of the text end. -/
def endsFromStart (r : Regex) (text : List Char) : Nat :=
  (r.motion text).run text.length .forward 1

/-- The positions where spans to the end of the text begin. -/
def startsToEnd (r : Regex) (text : List Char) : Nat :=
  (r.motion text).run text.length .backward (1 <<< text.length)

/-- Whether some part of the text is a span of the expression: one that begins at any position ends
somewhere. -/
def occursIn (r : Regex) (text : List Char) : Bool :=
  (r.motion text).run text.length .forward ((1 <<< (text.length + 1)) - 1) != 0

end Regex

end Tessera.Pattern
