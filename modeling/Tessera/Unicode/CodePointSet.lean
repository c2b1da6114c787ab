/-
**Sets of code points.**

A set of code points is a list of inclusive ranges.  Union merges the ranges, complement lists the
gaps between them, and the other operations come from these two.

Standard properties of characters are written down as texts of hexadecimal ranges, in the manner of
the Unicode data files (`41-5A 61-7A`), and read once.

Main definitions:

* `Tessera.CodePointSet` — a list of inclusive ranges;
* `Tessera.CodePointSet.contains` — membership;
* `Tessera.CodePointSet.union`, `complement`, `inter`, `diff`, `symmDiff` — the set operations;
* `Tessera.CodePointSet.ofText` — the set that a text of hexadecimal ranges names;
* `Tessera.namedSets` — a text of several sets, each under its names;
* `Tessera.named?` — the set with a name.
-/

import Tessera.Text.Parts

set_option autoImplicit false

namespace Tessera

/-- The largest code point. -/
def maxCodePoint : Nat := 0x10FFFF

/-- A set of code points, as a list of inclusive ranges. -/
structure CodePointSet where
  ranges : List (Nat × Nat)
  deriving Repr, DecidableEq

namespace CodePointSet

/-! ### Operations -/

/-- The set without members. -/
def empty : CodePointSet := ⟨[]⟩

/-- The set of all code points. -/
def all : CodePointSet := ⟨[(0, maxCodePoint)]⟩

/-- The code points from `lo` to `hi`. -/
def range (lo hi : Nat) : CodePointSet := ⟨[(lo, hi)]⟩

/-- The set of one code point. -/
def single (n : Nat) : CodePointSet := range n n

/-- Whether a code point lies in one of the ranges. -/
def contains (s : CodePointSet) (n : Nat) : Bool :=
  s.ranges.any fun r => decide (r.1 ≤ n) && decide (n ≤ r.2)

/-- Whether every member is below 128. -/
def isAscii (s : CodePointSet) : Bool :=
  s.ranges.all fun r => decide (r.2 < r.1) || decide (r.2 < 128)

/-- The ranges in the order of their lower ends. -/
def sortRanges (rs : List (Nat × Nat)) : List (Nat × Nat) :=
  rs.mergeSort fun a b => decide (a.1 ≤ b.1)

/-- Joins ranges that overlap or touch, given in the order of their lower ends. -/
def joinRanges (current : Nat × Nat) : List (Nat × Nat) → List (Nat × Nat)
  | [] => [current]
  | r :: rs =>
      if r.1 ≤ current.2 + 1 then joinRanges (current.1, max current.2 r.2) rs
      else current :: joinRanges r rs

/-- The members of both sets together. -/
def union (s t : CodePointSet) : CodePointSet :=
  match sortRanges ((s.ranges ++ t.ranges).filter fun r => decide (r.1 ≤ r.2)) with
  | [] => empty
  | r :: rs => ⟨joinRanges r rs⟩

/-- The gaps that ranges, in the order of their lower ends, leave from `next` on. -/
def gaps (next : Nat) : List (Nat × Nat) → List (Nat × Nat)
  | [] => if next ≤ maxCodePoint then [(next, maxCodePoint)] else []
  | r :: rs =>
      if next < r.1 then (next, r.1 - 1) :: gaps (r.2 + 1) rs
      else gaps (max next (r.2 + 1)) rs

/-- All code points that are not members. -/
def complement (s : CodePointSet) : CodePointSet :=
  ⟨gaps 0 (sortRanges (s.ranges.filter fun r => decide (r.1 ≤ r.2)))⟩

/-- The common members. -/
def inter (s t : CodePointSet) : CodePointSet :=
  (s.complement.union t.complement).complement

/-- The members of the first set that are not members of the second. -/
def diff (s t : CodePointSet) : CodePointSet :=
  (s.complement.union t).complement

/-- The members of exactly one of the sets. -/
def symmDiff (s t : CodePointSet) : CodePointSet :=
  (s.diff t).union (t.diff s)

/-- The members of all the sets together. -/
def unions (sets : List CodePointSet) : CodePointSet :=
  sets.foldr union empty

@[simp] theorem contains_empty (n : Nat) : empty.contains n = false := rfl

@[simp] theorem contains_range (lo hi n : Nat) :
    (range lo hi).contains n = (decide (lo ≤ n) && decide (n ≤ hi)) := by
  simp [contains, range]

/-! ### Reading sets -/

/-- The value of a hexadecimal digit. -/
def hexValue? (c : Char) : Option Nat :=
  if '0' ≤ c ∧ c ≤ '9' then some (c.toNat - '0'.toNat)
  else if 'a' ≤ c ∧ c ≤ 'f' then some (c.toNat - 'a'.toNat + 10)
  else if 'A' ≤ c ∧ c ≤ 'F' then some (c.toNat - 'A'.toNat + 10)
  else none

/-- The number that hexadecimal digits denote; other characters are skipped. -/
def hexNumber (cs : List Char) : Nat :=
  cs.foldl (fun n c => match hexValue? c with | some d => 16 * n + d | none => n) 0

/-- The range that a word names: two numbers with a hyphen between them, or one number. -/
def readRange (word : List Char) : Nat × Nat :=
  match cutAt (· == '-') word with
  | [lo, hi] => (hexNumber lo, hexNumber hi)
  | _ => (hexNumber word, hexNumber word)

/-- The set that a text of hexadecimal ranges names. -/
def ofText (text : String) : CodePointSet :=
  ⟨(words text.toList).map readRange⟩

end CodePointSet

open CodePointSet in
/-- Reads a text of several sets.  Each set is written as its names, a colon, its ranges and a
semicolon. -/
def namedSets (text : String) : List (List String × CodePointSet) :=
  (cutAt (· == ';') text.toList).filterMap fun entry =>
    match cutAt (· == ':') entry with
    | [names, ranges] =>
        some ((words names).map String.ofList, ⟨(words ranges).map readRange⟩)
    | _ => none

/-- The set with the given name. -/
def named? (sets : List (List String × CodePointSet)) (name : String) : Option CodePointSet :=
  (sets.find? fun s => s.1.contains name).map Prod.snd

end Tessera
