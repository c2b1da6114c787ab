/-
**Matchers.**

A matcher answers three questions about a text: does all of it match, which prefixes match, and
which suffixes match.  Offsets are counted in bytes.

Prefixes and suffixes are looked for with one scan of the text as it stands, so a condition at the end
of a prefix sees the character after it.  Where there is no scan, or it gives up, every prefix, or
suffix, is tried as a text of its own.  A scan may show something inside a character; only boundaries
count.

A pattern that does not compile matches everything.  Patterns that are composed from others may not
compile, because they nest too deep or grow too large; a matcher of such a pattern rules nothing out.

Main definitions:

* `Tessera.Matcher` — the answers to the three questions;
* `Tessera.Matcher.ofScans` — the matcher of a compiled pattern and its scans;
* `Tessera.Matcher.ofPattern` — the matcher that an engine gives for a pattern.
-/

import Tessera.Pattern.Engine

set_option autoImplicit false

namespace Tessera

/-- What can be asked of a pattern about a text. -/
structure Matcher where
  /-- Whether the whole text matches. -/
  whole : Text → Bool
  /-- The offsets, in ascending order, at which a matching prefix ends. -/
  prefixEnds : Text → List Nat
  /-- For each offset up to the length of the text, whether a matching suffix begins there. -/
  suffixStarts : Text → Array Bool

/-! ### Offsets -/

/-- All boundaries of a text, from `offset` on. -/
def boundaries (offset : Nat) : Text → List Nat
  | [] => [offset]
  | c :: cs => offset :: boundaries (offset + c.utf8Size) cs

/-- For each offset up to `size`, whether it is listed. -/
def flagged (size : Nat) (offsets : List Nat) : Array Bool :=
  offsets.foldl (fun flags i => flags.setIfInBounds i true) (Array.replicate (size + 1) false)

/-! ### Matchers of patterns -/

/-- Whether all of a text matches a compiled pattern; without one everything does. -/
def wholeMatch (exact : Option (Text → Bool)) (text : Text) : Bool :=
  match exact with
  | some isMatch => isMatch text
  | none => true

/-- The boundaries at which the text is cut such that the given part of it matches, found by trying
every boundary. -/
def probe (exact : Option (Text → Bool)) (part : Nat → Text → Text) (text : Text) : List Nat :=
  (boundaries 0 text).filter fun n => wholeMatch exact (part n text)

/-- The boundaries at which a scan shows a match; without a scan they are found by trying. -/
def found (exact : Option (Text → Bool)) (part : Nat → Text → Text) (scan : Option Scan)
    (text : Text) : List Nat :=
  match scan.bind fun s => s text with
  | some shows => (boundaries 0 text).filter shows
  | none => probe exact part text

/-- The matcher of a compiled pattern and its scans. -/
def Matcher.ofScans (exact : Option (Text → Bool)) (forward backward : Option Scan) : Matcher where
  whole := wholeMatch exact
  prefixEnds := found exact takeBytes forward
  suffixStarts text := flagged (byteLength text) (found exact dropBytes backward text)

/-- The largest size of an automaton, in bytes. -/
def dfaSizeLimit : Nat := 1 <<< 22

/-- The matcher that an engine gives for a pattern. -/
def Matcher.ofPattern (e : Engine) (pattern : Text) : Matcher :=
  Matcher.ofScans (e.whole? pattern) (e.scan? dfaSizeLimit .forward pattern)
    (e.scan? dfaSizeLimit .backward pattern)

end Tessera
