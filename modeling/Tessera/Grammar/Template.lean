/-
**The pattern of a definition.**

Every definition has a pattern that matches all texts the definition accepts, and perhaps more.  It
is put together from the patterns of the definitions that the rule mentions, each in a group of its
own.  A definition that mentions itself would never end; so a definition that was entered as often
as the limit allows stands for any text.  Leaves mention nothing and are always written out.

A template is such a pattern before it is written down.

Main definitions:

* `Tessera.Template` — the parts of a pattern;
* `Tessera.Template.toText` — the pattern written down;
* `Tessera.Template.ofDefinition` — the template of a definition.
-/

import Tessera.Grammar.Rule
import Tessera.Pattern.Escape

set_option autoImplicit false

namespace Tessera

/-! ### Templates -/

/-- The parts of the pattern of a definition. -/
inductive Template
  /-- Any text. -/
  | anything
  /-- A literal text. -/
  | literal (text : Text)
  /-- A pattern as it was given. -/
  | pattern (source : Text)
  /-- The empty text. -/
  | empty
  /-- The items one after the other. -/
  | sequence (items : List Template)
  /-- One of the alternatives. -/
  | choice (alternatives : List Template)
  /-- The item or nothing. -/
  | optional (item : Template) (lazy : Bool)
  /-- The item from `min` to `max` times. -/
  | repeated (item : Template) (min : Nat) (max : Option Nat) (lazy : Bool)
  /-- The item from `min` to `max` times with separators between. -/
  | separated (item separator : Template) (min : Nat) (max : Option Nat) (lazy : Bool)

namespace Template

/-- The pattern that matches any text. -/
def wildcardText : Text := "(?s:.)*".toList

/-- The pattern that matches no text, not even the empty one. -/
def nothingText : Text := "[^\\s\\S]".toList

/-- A pattern in a group of its own. -/
def group (inner : Text) : Text := ['(', '?', ':'] ++ inner ++ [')']

/-- The decimal digits of a number. -/
def digits (n : Nat) : Text := Nat.toDigits 10 n

/-- A mark that makes a repetition prefer fewer rounds. -/
def lazyMark (lazy : Bool) : Text := if lazy then ['?'] else []

/-- The operator that repeats from `min` to `max` times. -/
def countText (min : Nat) (max : Option Nat) : Text :=
  match min, max with
  | 0, none => ['*']
  | 1, none => ['+']
  | 0, some 1 => ['?']
  | min, none => ['\x7b'] ++ digits min ++ [',', '\x7d']
  | min, some max =>
      if min = max then ['\x7b'] ++ digits min ++ ['\x7d']
      else ['\x7b'] ++ digits min ++ [','] ++ digits max ++ ['\x7d']

/-- A group that is repeated. -/
def repeatedText (inner : Text) (min : Nat) (max : Option Nat) (lazy : Bool) : Text :=
  group inner ++ countText min max ++ lazyMark lazy

/-- Items with separators between them: one item, and then a separator and an item one time less
often.  When no item is needed, all of it is optional. -/
def separatedText (item separator : Text) (min : Nat) (max : Option Nat) (lazy : Bool) : Text :=
  let rest := repeatedText (group separator ++ group item) (min - 1) (max.map (· - 1)) lazy
  let body := group item ++ rest
  if 0 < min then body else group body ++ ['?'] ++ lazyMark lazy

mutual

/-- The pattern written down. -/
def toText : Template → Text
  | .anything => wildcardText
  | .literal text => Pattern.escape text
  | .pattern source => source
  | .empty => []
  | .sequence items => joined items
  | .choice [] => nothingText
  | .choice (a :: as) => group a.toText ++ barred as
  | .optional item lazy => group item.toText ++ ['?'] ++ lazyMark lazy
  | .repeated item min max lazy => repeatedText item.toText min max lazy
  | .separated item separator min max lazy =>
      separatedText item.toText separator.toText min max lazy

/-- Patterns one after the other, each in a group of its own. -/
def joined : List Template → Text
  | [] => []
  | t :: ts => group t.toText ++ joined ts

/-- Further alternatives, each after a bar and in a group of its own. -/
def barred : List Template → Text
  | [] => []
  | t :: ts => '|' :: group t.toText ++ barred ts

end

/-! ### Templates of definitions -/

/-- The template of a definition.  `entered` lists the definitions that are being written out around
it, and `fuel` bounds their number. -/
def render (rule : DefId → Rule) (limit : Nat) : Nat → List DefId → DefId → Template
  | 0, _, _ => .anything
  | fuel + 1, entered, d =>
      if !(rule d).isLeaf && decide (limit ≤ entered.count d) then .anything
      else
        let inner := render rule limit fuel (d :: entered)
        match rule d with
        | .literal text => .literal text
        | .pattern source => .pattern source
        | .empty => .empty
        | .sequence items => .sequence (items.map inner)
        | .choice alternatives => .choice (alternatives.map inner)
        | .optional item quantifier => .optional (inner item) (quantifier == .lazy)
        | .loop item r => .repeated (inner item) r.min r.max (r.quantifier == .lazy)
        | .separated item separator _ r =>
            .separated (inner item) (inner separator) r.min r.max (r.quantifier == .lazy)
        | .alias target _ => inner target
        | .forward target => inner target
        | .withDefault _ target => inner target

/-- The template of a definition in a grammar of `size` definitions, each entered at most `limit`
times. -/
def ofDefinition (rule : DefId → Rule) (size limit : Nat) (d : DefId) : Template :=
  render rule limit (limit * size + 2) [] d

end Template

end Tessera
