/-
**Candidates for the end of an item.**

An item that begins at a known offset may end wherever a prefix of the rest matches its pattern. 
The quantifier decides in which order these ends are tried.

Main definitions:

* `Tessera.Query` — what is searched, and whether hopeless candidates are left out;
* `Tessera.Quantifier.order` — ends in the order in which a quantifier tries them;
* `Tessera.Filter` — the offsets at which what follows a candidate may begin;
* `Tessera.Query.ends` — the ends to try for an item.
-/

import Tessera.Grammar.Basic
import Tessera.Search.Split

set_option autoImplicit false

namespace Tessera

/-- The order in which a quantifier tries the ends of an item, given in ascending order: a greedy
one from the last to the first, a lazy one from the first to the last, and a possessive one the
last alone. -/
def Quantifier.order (q : Quantifier) (ends : List Nat) : List Nat :=
  match q with
  | .greedy => ends.reverse
  | .lazy => ends
  | .possessive => ends.getLast?.toList

/-- Where what follows a candidate may begin: anywhere, or at the flagged offsets counted from
`start`.  The flags are found when they are first needed. -/
inductive Filter
  | everywhere
  | flagged (start : Nat) (flags : Thunk (Array Bool))

/-- Whether what follows may begin at an offset. -/
def Filter.allows : Filter → Nat → Bool
  | .everywhere, _ => true
  | .flagged start flags, offset => flags.get.getD (offset - start) false

/-- What is searched: a text, in a grammar.  With pruning, candidates are left out after which the
rest of the text cannot match. -/
structure Query where
  grammar : Grammar
  text : Text
  prune : Bool

namespace Query

/-- The text of a range. -/
def slice (q : Query) (start stop : Nat) : Text := Tessera.slice q.text start stop

/-- The ends of an item that begins at `cursor`, in ascending order. -/
def allEnds (q : Query) (item : DefId) (cursor stop : Nat) : List Nat :=
  ((q.grammar.acceptors.definition item).prefixEnds (q.slice cursor stop)).map (cursor + ·)

/-- The quantifier that orders the ends of an item on its own. -/
def quantifier (q : Query) (item : DefId) : Quantifier :=
  (q.grammar.quantifier? item).getD .greedy

/-- The ends of an item that begins at `cursor`, in the order in which they are tried. -/
def ends (q : Query) (item : DefId) (cursor stop : Nat) : List Nat :=
  (q.quantifier item).order (q.allEnds item cursor stop)

/-- Where what follows a candidate may begin, over the range from `start` to `stop`. -/
def follows (q : Query) (tail : Tail) (start stop : Nat) : Filter :=
  if q.prune then
    .flagged start ⟨fun _ => (q.grammar.acceptors.tail tail).suffixStarts (q.slice start stop)⟩
  else .everywhere

end Query

end Tessera
