/-
**Reading patterns.**

`Ast.parse?` reads the text of a pattern into its syntax tree.  A pattern is refused when it is not
well formed, when it names two groups alike, and when it nests more than 250 deep.

The reader is a single loop over the text that keeps the open groups on a stack, each with the
alternatives and the items that were read in it so far.

Main definitions:

* `Tessera.Pattern.Ast.parse?` — the syntax tree of a pattern.
-/

import Tessera.Pattern.Class

set_option autoImplicit false

namespace Tessera.Pattern

/-! ### Group openings -/

/-- The flag of a letter. -/
def flag? (c : Char) : Option Flag :=
  match c with
  | 'i' => some .caseInsensitive
  | 'm' => some .multiLine
  | 's' => some .dotMatchesNewLine
  | 'U' => some .swapGreed
  | 'u' => some .unicode
  | 'R' => some .crlf
  | 'x' => some .ignoreWhitespace
  | _ => none

/-- Reads flags up to a colon or a closing parenthesis: the items in order, and what is left from
that character on.  No flag may be given twice, and a hyphen must be followed by a flag. -/
def readFlags (items : List FlagItem) : List Char → Option (List FlagItem × List Char)
  | [] => none
  | c :: cs =>
      if c = ':' ∨ c = ')' then
        if items.head? = some .negation then none else some (items.reverse, c :: cs)
      else
        let item? := if c = '-' then some .negation else (flag? c).map .flag
        match item? with
        | none => none
        | some item => if items.contains item then none else readFlags (item :: items) cs

/-- Whether a character may stand in the name of a group. -/
def isNameChar (first : Bool) (c : Char) : Bool :=
  if first then c == '_' || isAlphabetic c
  else c == '_' || c == '.' || c == '[' || c == ']' || isAlphanumeric c

/-- Reads the name of a group and the closing angle bracket. -/
def readGroupName (text : List Char) : Option (String × List Char) :=
  match text.takeWhile (· != '>'), text.dropWhile (· != '>') with
  | c :: cs, '>' :: rest =>
      if isNameChar true c && cs.all (isNameChar false) then
        some (String.ofList (c :: cs), rest)
      else none
  | _, _ => none

/-- What an opening parenthesis begins. -/
inductive Opening
  /-- A group, with the name and the flags that it may have. -/
  | group (name : Option String) (flags : List FlagItem)
  /-- Flags for what follows in the enclosing group. -/
  | flags (items : List FlagItem)

/-- Reads the name of a group. -/
def namedOpening (text : List Char) : Option (Opening × List Char) :=
  (readGroupName text).map fun (name, rest) => (.group (some name) [], rest)

/-- Reads flags, or the flags of a group. -/
def flaggedOpening (text : List Char) : Option (Opening × List Char) :=
  match readFlags [] text with
  | some (items, ':' :: rest) => some (.group none items, rest)
  | some (item :: items, ')' :: rest) => some (.flags (item :: items), rest)
  | _ => none

/-- Reads what follows an opening parenthesis.  Groups that look around are refused. -/
def readOpening (verbose : Bool) (text : List Char) : Option (Opening × List Char) :=
  match skipBlanks verbose text with
  | '?' :: '=' :: _ => none
  | '?' :: '!' :: _ => none
  | '?' :: '<' :: '=' :: _ => none
  | '?' :: '<' :: '!' :: _ => none
  | '?' :: 'P' :: '<' :: cs => namedOpening cs
  | '?' :: '<' :: cs => namedOpening cs
  | '?' :: cs => flaggedOpening cs
  | rest => some (.group none [], rest)

/-! ### The loop -/

/-- What was read of one group: the finished alternatives and the items of the current one, latest
first, and whether blanks are skipped. -/
structure Level where
  branches : List Ast
  items : List Ast
  verbose : Bool

/-- A group that waits for its end: the level around it and its flags. -/
structure OpenGroup where
  outer : Level
  flags : List FlagItem

/-- The level at the beginning of a group or a pattern. -/
def Level.start (verbose : Bool) : Level := ⟨[], [], verbose⟩

/-- Adds an item to the current alternative. -/
def Level.push (l : Level) (a : Ast) : Level := { l with items := a :: l.items }

/-- Ends the current alternative. -/
def Level.branch (l : Level) : Level :=
  { l with branches := Ast.ofItems l.items.reverse :: l.branches, items := [] }

/-- The tree of everything that was read at a level. -/
def Level.tree (l : Level) : Ast :=
  match l.branches with
  | [] => Ast.ofItems l.items.reverse
  | _ => .alternation l.branch.branches.reverse

/-- Applies a repetition to the latest item.  There must be one, and it must not be a mere switch of
flags. -/
def Level.repeatLast (l : Level) (min : Nat) (max : Option Nat) : Option Level :=
  match l.items with
  | [] => none
  | .empty :: _ => none
  | .flags _ :: _ => none
  | a :: items => some { l with items := .repetition a min max :: items }

/-- The reader's state: the current level, the groups around it and the group names seen so far. -/
structure Reading where
  level : Level
  stack : List OpenGroup
  names : List String

/-- The state with another current level. -/
def Reading.withLevel (r : Reading) (l : Level) : Reading := { r with level := l }

/-- Reads what the opening parenthesis before `cs` begins. -/
def Reading.openGroup (r : Reading) (cs : List Char) : Option (Reading × List Char) :=
  match readOpening r.level.verbose cs with
  | none => none
  | some (.flags items, rest) =>
      let verbose := (flagState .ignoreWhitespace true items).getD r.level.verbose
      some (r.withLevel { r.level.push (.flags items) with verbose }, rest)
  | some (.group name items, rest) =>
      if name.any r.names.contains then none
      else
        let verbose := (flagState .ignoreWhitespace true items).getD r.level.verbose
        some (⟨.start verbose, ⟨r.level, items⟩ :: r.stack, name.toList ++ r.names⟩, rest)

/-- Ends the innermost group. -/
def Reading.closeGroup (r : Reading) : Option Reading :=
  match r.stack with
  | [] => none
  | g :: stack => some { r with level := g.outer.push (.group g.flags r.level.tree), stack }

/-- The tree of a primitive. -/
def Primitive.toAst : Primitive → Ast
  | .literal l => .literal l
  | .dot => .dot
  | .anchor a => .anchor a
  | .property negated name => .property negated name
  | .shorthand negated kind => .shorthand negated kind

/-- Reads what begins with the character `c`. -/
def Reading.step (r : Reading) (c : Char) (cs : List Char) : Option (Reading × List Char) :=
  let push (a : Ast) (rest : List Char) := some (r.withLevel (r.level.push a), rest)
  let repetition (min : Nat) (max : Option Nat) :=
    (r.level.repeatLast min max).map fun l => (r.withLevel l, skipLazy cs)
  match c with
  | '(' => r.openGroup cs
  | ')' => r.closeGroup.map fun r => (r, cs)
  | '|' => some (r.withLevel r.level.branch, cs)
  | '[' =>
      match readClass r.level.verbose cs with
      | none => none
      | some (negated, body, rest) => push (.bracketed negated body) rest
  | '?' => repetition 0 (some 1)
  | '*' => repetition 0 none
  | '+' => repetition 1 none
  | '\x7b' =>
      match readCount r.level.verbose cs with
      | none => none
      | some ((min, max), rest) => (r.level.repeatLast min max).map fun l => (r.withLevel l, rest)
  | '\\' =>
      match readEscape r.level.verbose cs with
      | none => none
      | some (p, rest) => push p.toAst rest
  | '.' => push .dot cs
  | '^' => push (.anchor .lineStart) cs
  | '$' => push (.anchor .lineEnd) cs
  | c => push (.literal ⟨c, false⟩) cs

/-- The tree of a pattern whose end is reached: no group may be open. -/
def Reading.finish (r : Reading) : Option Ast :=
  match r.stack with
  | [] => some r.level.tree
  | _ => none

/-- Reads a pattern to its end.  Every round reads a character, so the length of the text is fuel
enough. -/
def Reading.run : Nat → Reading → List Char → Option Ast
  | 0, _, _ => none
  | fuel + 1, r, text =>
      match skipBlanks r.level.verbose text with
      | [] => r.finish
      | c :: cs =>
          match r.step c cs with
          | none => none
          | some (r, rest) => Reading.run fuel r rest

/-- The deepest nesting that is accepted. -/
def nestLimit : Nat := 250

/-- The syntax tree of a pattern. -/
def Ast.parse? (text : List Char) : Option Ast :=
  match Reading.run (text.length + 1) ⟨.start false, [], []⟩ text with
  | none => none
  | some a => if a.depth ≤ nestLimit then some a else none

end Tessera.Pattern
