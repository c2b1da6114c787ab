/-
**What patterns match.**

A regular expression matches spans of a text: from one position to another.  Its leaves are sets of
characters and conditions on the two characters around a position; which span an expression matches
may thus depend on the text around the span.

Positions count characters here.  `Regex.Span` says which spans an expression matches; how they are
found is the business of `Tessera.Pattern.Motion`.

Main definitions:

* `Tessera.Pattern.Regex` — regular expressions;
* `Tessera.Pattern.Look.holds` — conditions on a position;
* `Tessera.Pattern.Regex.Span` — the spans that an expression matches in a text;
* `Tessera.Pattern.Regex.weight` — how large an expression becomes when it is unrolled.

Main results:

* `Tessera.Pattern.Regex.Span.le` — a span ends where it begins or later.
-/

import Tessera.Unicode.Property

set_option autoImplicit false

namespace Tessera.Pattern

/-! ### Conditions on a position -/

/-- What a word boundary asks for. -/
inductive WordEdge
  | boundary
  | interior
  | start
  | stop
  | startHalf
  | stopHalf
  deriving DecidableEq, Repr

/-- A condition on a position of a text. -/
inductive Look
  /-- The position is the beginning of the text. -/
  | textStart
  /-- The position is the end of the text. -/
  | textEnd
  /-- A line begins here; with `crlf`, carriage returns end lines too. -/
  | lineStart (crlf : Bool)
  /-- A line ends here; with `crlf`, carriage returns end lines too. -/
  | lineEnd (crlf : Bool)
  /-- The characters around the position are word characters or not; without `unicode` only ASCII
  characters are word characters. -/
  | word (unicode : Bool) (edge : WordEdge)
  deriving DecidableEq, Repr

/-- What a word edge asks of the characters before and after the position. -/
def WordEdge.holds (before after : Bool) : WordEdge → Bool
  | .boundary => before != after
  | .interior => before == after
  | .start => !before && after
  | .stop => before && !after
  | .startHalf => !before
  | .stopHalf => !after

/-- Whether a condition holds between the characters `before` and `after`; there is none at either
end of the text. -/
def Look.holds (before after : Option Char) : Look → Bool
  | .textStart => before.isNone
  | .textEnd => after.isNone
  | .lineStart false => before.isNone || before == some '\n'
  | .lineStart true =>
      before.isNone || before == some '\n' || (before == some '\r' && after != some '\n')
  | .lineEnd false => after.isNone || after == some '\n'
  | .lineEnd true =>
      after.isNone || after == some '\r' || (after == some '\n' && before != some '\r')
  | .word unicode edge =>
      let isWord := if unicode then isWordCharacter else isAsciiWordCharacter
      edge.holds (before.any isWord) (after.any isWord)

/-! ### Expressions -/

/-- A regular expression. -/
inductive Regex
  /-- Matches the empty text everywhere. -/
  | empty
  /-- Matches one character of a set. -/
  | set (s : CodePointSet)
  /-- Matches the empty text where a condition holds. -/
  | look (l : Look)
  /-- Matches a span of the one followed by a span of the other. -/
  | seq (first second : Regex)
  /-- Matches the spans of both. -/
  | alt (left right : Regex)
  /-- Matches at least `min` and at most `max` spans in a row. -/
  | repeated (body : Regex) (min : Nat) (max : Option Nat)
  deriving Repr

namespace Regex

/-- The expressions one after the other. -/
def seqs : List Regex → Regex
  | [] => .empty
  | [r] => r
  | r :: rs => .seq r (seqs rs)

/-- The expression that matches nothing. -/
def never : Regex := .set CodePointSet.empty

/-- The expression of several alternatives. -/
def alts : List Regex → Regex
  | [] => never
  | [r] => r
  | r :: rs => .alt r (alts rs)

/-- The condition holds at position `i` of the text. -/
def LookAt (text : List Char) (i : Nat) (l : Look) : Prop :=
  l.holds (if i = 0 then none else text[i - 1]?) text[i]? = true

/-- A relation between positions holds `n` times in a row from position `i` to position `j`. -/
def Rounds (step : Nat → Nat → Prop) : Nat → Nat → Nat → Prop
  | 0, i, j => i = j
  | n + 1, i, k => ∃ j, step i j ∧ Rounds step n j k

/-- The expression matches from position `i` to position `j` of the text. -/
def Span (text : List Char) : Regex → Nat → Nat → Prop
  | .empty, i, j => i = j
  | .set s, i, j => j = i + 1 ∧ ∃ c, text[i]? = some c ∧ s.contains c.toNat = true
  | .look l, i, j => i = j ∧ i ≤ text.length ∧ LookAt text i l
  | .seq a b, i, k => ∃ j, Span text a i j ∧ Span text b j k
  | .alt a b, i, j => Span text a i j ∨ Span text b i j
  | .repeated r min max, i, j =>
      ∃ n, min ≤ n ∧ (∀ m, max = some m → n ≤ m) ∧ Rounds (Span text r) n i j

/-- Rounds that never step back end where they begin or later. -/
theorem Rounds.le {step : Nat → Nat → Prop} (h : ∀ i j, step i j → i ≤ j) :
    ∀ {n i j : Nat}, Rounds step n i j → i ≤ j
  | 0, _, _, r => Nat.le_of_eq r
  | _ + 1, _, _, ⟨_, first, rest⟩ => Nat.le_trans (h _ _ first) (Rounds.le h rest)

/-- A span ends where it begins or later. -/
theorem Span.le {text : List Char} {r : Regex} {i j : Nat} (h : Span text r i j) : i ≤ j := by
  induction r generalizing i j with
  | empty => exact Nat.le_of_eq h
  | set s => rw [h.1]; exact Nat.le_succ _
  | look l => exact Nat.le_of_eq h.1
  | seq a b iha ihb =>
      obtain ⟨k, ha, hb⟩ := h
      exact Nat.le_trans (iha ha) (ihb hb)
  | alt a b iha ihb => exact h.elim iha ihb
  | repeated r min max ih =>
      obtain ⟨n, _, _, hr⟩ := h
      exact Rounds.le (fun _ _ => ih) hr

/-! ### Shape -/

/-- Whether the expression can match nothing but the empty text. -/
def onlyEmpty : Regex → Bool
  | .empty => true
  | .set _ => false
  | .look _ => true
  | .seq a b => a.onlyEmpty && b.onlyEmpty
  | .alt a b => a.onlyEmpty && b.onlyEmpty
  | .repeated r _ max => r.onlyEmpty || max == some 0

/-- A repetition in its simplest form: rounds that can only be empty need not be repeated, no round
at all is the empty expression, and one round is the expression itself. -/
def repetition (body : Regex) (min : Nat) (max : Option Nat) : Regex :=
  let (min, max) :=
    if body.onlyEmpty then (Nat.min min 1, some ((max.map (Nat.min · 1)).getD 1)) else (min, max)
  match min, max with
  | 0, some 0 => .empty
  | 1, some 1 => body
  | _, _ => .repeated body min max

/-- Whether a condition on a position occurs in the expression. -/
def hasLook : Regex → Bool
  | .empty => false
  | .set _ => false
  | .look _ => true
  | .seq a b => a.hasLook || b.hasLook
  | .alt a b => a.hasLook || b.hasLook
  | .repeated r _ _ => r.hasLook

/-- Whether a condition on Unicode word characters occurs in the expression. -/
def hasUnicodeWord : Regex → Bool
  | .empty => false
  | .set _ => false
  | .look (.word unicode _) => unicode
  | .look _ => false
  | .seq a b => a.hasUnicodeWord || b.hasUnicodeWord
  | .alt a b => a.hasUnicodeWord || b.hasUnicodeWord
  | .repeated r _ _ => r.hasUnicodeWord

/-- The number of byte sequences that a range of code points is made of, roughly. -/
def rangeWeight (r : Nat × Nat) : Nat :=
  if r.2 < 0x80 then 1 else if r.2 < 0x800 then 2 else if r.2 < 0x10000 then 3 else 4

/-- How much room the expression takes, in bytes and roughly, when every repetition is unrolled into
copies of its body. -/
def weight : Regex → Nat
  | .empty => 32
  | .set s =>
      match s.ranges with
      | [(lo, hi)] => if lo = hi then 32 * rangeWeight (lo, hi) else 64 * rangeWeight (lo, hi)
      | rs =>
          if s.isAscii then 64 + 8 * rs.length
          else 64 + 16 * (rs.map rangeWeight).foldl (· + ·) 0
  | .look _ => 32
  | .seq a b => a.weight + b.weight
  | .alt a b => a.weight + b.weight + 40
  | .repeated r min none => r.weight * Nat.max min 1 + 40
  | .repeated r _ (some max) => r.weight * max + 40

/-- The largest weight of an expression that is accepted. -/
def weightLimit : Nat := 10 * 1024 * 1024

end Regex

end Tessera.Pattern
