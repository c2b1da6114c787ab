/-
**Scans with automata.**

A pattern of moderate size is also compiled into two automata over bytes.  One reads a text forward
from its beginning and stands in a match state after the prefixes that match; the other reads it
backward from its end and does so after the suffixes.  An automaton shows a match one byte late: only
the next byte, or the end of the text, leads to the match state.  A dead state ends a scan early, for
no match can follow.  An automaton may also give up, in a quit state; then, and when there is no
automaton, every prefix or suffix is tried on its own.

The automata come from a library; here they are parameters.

Main definitions:

* `Tessera.Automaton` — automata over bytes;
* `Tessera.Automaton.scanForward`, `scanReverse` — the offsets at which an automaton shows matches;
* `Tessera.Automaton.forwardScan`, `reverseScan` — the scans of an automaton;
* `Tessera.Matcher.ofAutomata` — the matcher of a compiled pattern with its automata.
-/

import Tessera.Pattern.Matcher

set_option autoImplicit false

namespace Tessera

/-- The bytes of the UTF-8 encoding of a text. -/
def bytesOf (text : Text) : List UInt8 := text.flatMap String.utf8EncodeChar

/-- A deterministic automaton over bytes. -/
structure Automaton where
  State : Type
  /-- Where a scan begins, if the automaton can begin one. -/
  start : Option State
  next : State → UInt8 → State
  /-- Where the end of the text leads to. -/
  finish : State → State
  /-- Whether a state asks for attention: all match, dead and quit states do. -/
  isSpecial : State → Bool
  isMatch : State → Bool
  isDead : State → Bool
  isQuit : State → Bool

namespace Automaton

/-- After how many bytes the automaton shows a match, `read` of which have been read; nothing when it
gives up. -/
def scanFrom (a : Automaton) (s : a.State) (read : Nat) : List UInt8 → Option (List Nat)
  | [] => some (if a.isMatch (a.finish s) then [read] else [])
  | b :: bs =>
      let s := a.next s b
      if !a.isSpecial s then a.scanFrom s (read + 1) bs
      else if a.isMatch s then (a.scanFrom s (read + 1) bs).map (read :: ·)
      else if a.isDead s then some []
      else if a.isQuit s then none
      else a.scanFrom s (read + 1) bs

/-- After how many bytes, from the first on, the automaton shows a match. -/
def scan (a : Automaton) (bytes : List UInt8) : Option (List Nat) :=
  a.start.bind fun s => a.scanFrom s 0 bytes

/-- The offsets at which the automaton, reading from the beginning, shows the end of a prefix. -/
def scanForward (a : Automaton) (text : Text) : Option (List Nat) := a.scan (bytesOf text)

/-- The offsets at which the automaton, reading from the end, shows the start of a suffix. -/
def scanReverse (a : Automaton) (text : Text) : Option (List Nat) :=
  (a.scan (bytesOf text).reverse).map fun reads => reads.map (byteLength text - ·)

/-- The scan of a text from its beginning. -/
def forwardScan (a : Automaton) : Scan := fun text => (a.scanForward text).map fun ends e =>
  ends.contains e

/-- The scan of a text from its end. -/
def reverseScan (a : Automaton) : Scan := fun text => (a.scanReverse text).map fun starts s =>
  starts.contains s

end Automaton

/-- The matcher of a compiled pattern with the automata that there are for it. -/
def Matcher.ofAutomata (exact : Option (Text → Bool)) (forward reverse : Option Automaton) :
    Matcher where
  whole := wholeMatch exact
  prefixEnds text :=
    ((forward.bind fun a => a.scanForward text).getD (probe exact takeBytes text)).filter
      fun e => decide (IsBoundary text e)
  suffixStarts text :=
    flagged (byteLength text) <|
      ((reverse.bind fun a => a.scanReverse text).getD (probe exact dropBytes text)).filter
        fun s => decide (IsBoundary text s)

end Tessera
