/-
**The syntax of patterns.**

A pattern is a regular expression: characters, classes of characters, anchors, groups, repetitions
and inline flags.  This module holds its syntax tree, as written; what the tree matches is said in
`Tessera.Pattern.Regex`.

Main definitions:

* `Tessera.Pattern.ClassExpr` — what stands between square brackets;
* `Tessera.Pattern.Ast` — a pattern as written;
* `Tessera.Pattern.Ast.depth` — how deeply a pattern nests.
-/

set_option autoImplicit false

namespace Tessera.Pattern

/-- A single character.  `byte` says that it was written as an escape of two hexadecimal digits,
which denotes a byte where Unicode is switched off. -/
structure Literal where
  char : Char
  byte : Bool
  deriving DecidableEq, Repr

/-- The classes with one-letter names: digits, blanks and word characters. -/
inductive Shorthand
  | digit
  | space
  | word
  deriving DecidableEq, Repr

/-- The ASCII classes that are named inside a bracketed class. -/
inductive AsciiClass
  | alnum
  | alpha
  | ascii
  | blank
  | cntrl
  | digit
  | graph
  | lower
  | print
  | punct
  | space
  | upper
  | word
  | xdigit
  deriving DecidableEq, Repr

/-- A property of characters, named alone or with a value. -/
inductive PropertyName
  | alone (name : String)
  | valued (name value : String)
  deriving DecidableEq, Repr

/-- The operations between the parts of a bracketed class. -/
inductive ClassOp
  | intersection
  | difference
  | symmetricDifference
  deriving DecidableEq, Repr

/-- What stands between square brackets. -/
inductive ClassExpr
  | empty
  | literal (l : Literal)
  | range (lo hi : Literal)
  | ascii (negated : Bool) (name : AsciiClass)
  | property (negated : Bool) (name : PropertyName)
  | shorthand (negated : Bool) (kind : Shorthand)
  | bracketed (negated : Bool) (body : ClassExpr)
  | union (items : List ClassExpr)
  | op (kind : ClassOp) (left right : ClassExpr)
  deriving Repr

/-- Conditions on a position that match no character. -/
inductive Anchor
  | lineStart
  | lineEnd
  | textStart
  | textEnd
  | wordBoundary
  | notWordBoundary
  | wordStart
  | wordEnd
  | wordStartHalf
  | wordEndHalf
  deriving DecidableEq, Repr

/-- The switches of a pattern. -/
inductive Flag
  | caseInsensitive
  | multiLine
  | dotMatchesNewLine
  | swapGreed
  | unicode
  | crlf
  | ignoreWhitespace
  deriving DecidableEq, Repr

/-- Flags as written: a hyphen switches off those that follow it. -/
inductive FlagItem
  | negation
  | flag (f : Flag)
  deriving DecidableEq, Repr

/-- What the items say about one flag, if anything. -/
def flagState (f : Flag) : Bool → List FlagItem → Option Bool
  | _, [] => none
  | _, .negation :: rest => flagState f false rest
  | on, .flag g :: rest => if f = g then some on else flagState f on rest

/-- A pattern as written.  Whether a repetition prefers more or fewer rounds is not kept: it has no
effect on which texts match. -/
inductive Ast
  | empty
  | flags (items : List FlagItem)
  | literal (l : Literal)
  | dot
  | anchor (a : Anchor)
  | property (negated : Bool) (name : PropertyName)
  | shorthand (negated : Bool) (kind : Shorthand)
  | bracketed (negated : Bool) (body : ClassExpr)
  | repetition (body : Ast) (min : Nat) (max : Option Nat)
  | group (flags : List FlagItem) (body : Ast)
  | concat (items : List Ast)
  | alternation (branches : List Ast)
  deriving Repr

/-! ### Nesting -/

mutual

/-- How deeply a class nests: brackets, unions and operations each count one. -/
def ClassExpr.depth : ClassExpr → Nat
  | .bracketed _ body => body.depth + 1
  | .union items => ClassExpr.depthList items + 1
  | .op _ left right => max left.depth right.depth + 1
  | _ => 0

/-- The deepest nesting among several classes. -/
def ClassExpr.depthList : List ClassExpr → Nat
  | [] => 0
  | c :: cs => max c.depth (ClassExpr.depthList cs)

end

mutual

/-- How deeply a pattern nests: classes, repetitions, groups, concatenations and alternations each
count one. -/
def Ast.depth : Ast → Nat
  | .bracketed _ body => body.depth + 1
  | .repetition body _ _ => body.depth + 1
  | .group _ body => body.depth + 1
  | .concat items => Ast.depthList items + 1
  | .alternation branches => Ast.depthList branches + 1
  | _ => 0

/-- The deepest nesting among several patterns. -/
def Ast.depthList : List Ast → Nat
  | [] => 0
  | a :: as => max a.depth (Ast.depthList as)

end

/-- The tree of a concatenation: one item stands for itself. -/
def Ast.ofItems : List Ast → Ast
  | [] => .empty
  | [a] => a
  | items => .concat items

/-- The tree of a union: one item stands for itself. -/
def ClassExpr.ofItems : List ClassExpr → ClassExpr
  | [] => .empty
  | [c] => c
  | items => .union items

end Tessera.Pattern
