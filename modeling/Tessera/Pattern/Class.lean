/-
**Reading bracketed classes.**

A bracketed class lists characters, ranges and other classes between square brackets.  Classes nest,
and `&&`, `--` and `~~` combine what stands before them with what follows, from left to right.

The reader keeps the open brackets and the pending operation of each on a stack, so it is a single
loop over the text.

Main definitions:

* `Tessera.Pattern.readClass` — the class that an opening bracket begins.
-/

import Tessera.Pattern.Escape

set_option autoImplicit false

namespace Tessera.Pattern

/-! ### Single items -/

/-- The ASCII class of a name. -/
def asciiClass? (name : String) : Option AsciiClass :=
  match name with
  | "alnum" => some .alnum
  | "alpha" => some .alpha
  | "ascii" => some .ascii
  | "blank" => some .blank
  | "cntrl" => some .cntrl
  | "digit" => some .digit
  | "graph" => some .graph
  | "lower" => some .lower
  | "print" => some .print
  | "punct" => some .punct
  | "space" => some .space
  | "upper" => some .upper
  | "word" => some .word
  | "xdigit" => some .xdigit
  | _ => none

/-- Reads a named ASCII class, given what follows its opening bracket. -/
def readAsciiClass (text : List Char) : Option (ClassExpr × List Char) :=
  let named (negated : Bool) (body : List Char) : Option (ClassExpr × List Char) :=
    match asciiClass? (String.ofList (body.takeWhile (· != ':'))), body.dropWhile (· != ':') with
    | some name, ':' :: ']' :: rest => some (.ascii negated name, rest)
    | _, _ => none
  match text with
  | ':' :: '^' :: body => named true body
  | ':' :: body => named false body
  | _ => none

/-- Reads one character or escape of a class. -/
def readClassItem (verbose : Bool) : List Char → Option (Primitive × List Char)
  | [] => none
  | '\\' :: cs => readEscape verbose cs
  | c :: cs => some (.literal ⟨c, false⟩, cs)

/-- The class of what was read, if it is allowed in a class. -/
def Primitive.toClass? : Primitive → Option ClassExpr
  | .literal l => some (.literal l)
  | .property negated name => some (.property negated name)
  | .shorthand negated kind => some (.shorthand negated kind)
  | .dot => none
  | .anchor _ => none

/-- The character that decides whether a hyphen stands for itself: the next one that is not blank.
In verbose mode a comment sign in front of it is passed over. -/
def afterHyphen (verbose : Bool) (text : List Char) : Option Char :=
  if verbose then
    match text.dropWhile isWhiteSpace with
    | '#' :: rest => (rest.dropWhile isWhiteSpace).head?
    | rest => rest.head?
  else text.head?

/-- Reads one item of a class or a range between two characters. -/
def readClassRange (verbose : Bool) (text : List Char) : Option (ClassExpr × List Char) := do
  let (first, rest) ← readClassItem verbose text
  match skipBlanks verbose rest with
  | [] => none
  | '-' :: cs =>
      if afterHyphen verbose cs = some ']' ∨ afterHyphen verbose cs = some '-' then
        return (← first.toClass?, '-' :: cs)
      match skipBlanks verbose cs with
      | [] => none
      | body =>
          let (last, rest) ← readClassItem verbose body
          match first, last with
          | .literal lo, .literal hi =>
              if lo.char ≤ hi.char then some (.range lo hi, rest) else none
          | _, _ => none
  | rest => return (← first.toClass?, rest)

/-- Reads the hyphens that stand for themselves at the beginning of a class. -/
def readLeadingHyphens (verbose : Bool) :
    Nat → List ClassExpr → List Char → Option (List ClassExpr × List Char)
  | 0, _, _ => none
  | _, _, [] => none
  | fuel + 1, items, c :: cs =>
      if c = '-' then
        readLeadingHyphens verbose fuel (.literal ⟨'-', false⟩ :: items) (skipBlanks verbose cs)
      else if c = ']' ∧ items.isEmpty then
        match skipBlanks verbose cs with
        | [] => none
        | rest => some ([.literal ⟨']', false⟩], rest)
      else some (items, c :: cs)

/-- Reads the beginning of a class, given what follows its opening bracket: whether it is negated,
and the hyphens and the closing bracket that stand for themselves there. -/
def readClassOpening (verbose : Bool) (text : List Char) :
    Option (Bool × List ClassExpr × List Char) := do
  let text := skipBlanks verbose text
  let (negated, body) := match text with
    | '^' :: cs => (true, skipBlanks verbose cs)
    | cs => (false, cs)
  let (items, rest) ← readLeadingHyphens verbose (body.length + 1) [] body
  return (negated, items, rest)

/-! ### Nested classes -/

/-- What waits for the class that is being read. -/
inductive ClassFrame
  /-- An open bracket: the items before it, latest first, and whether the class is negated. -/
  | bracket (outer : List ClassExpr) (negated : Bool)
  /-- The left side of an operation. -/
  | operation (kind : ClassOp) (left : ClassExpr)

/-- Applies the operation that waits on top of the stack, if one does. -/
def applyPending (right : ClassExpr) : List ClassFrame → ClassExpr × List ClassFrame
  | .operation kind left :: stack => (.op kind left right, stack)
  | stack => (right, stack)

/-- Reads the rest of a class; `items` were read already in the innermost bracket, latest first.
Every round reads a character, so the length of the text is fuel enough. -/
def readClassItems (verbose : Bool) :
    Nat → List ClassFrame → List ClassExpr → List Char → Option (Bool × ClassExpr × List Char)
  | 0, _, _, _ => none
  | fuel + 1, stack, items, text =>
      let operation (kind : ClassOp) (rest : List Char) :=
        let (left, stack) := applyPending (ClassExpr.ofItems items.reverse) stack
        readClassItems verbose fuel (.operation kind left :: stack) [] rest
      match skipBlanks verbose text with
      | [] => none
      | '[' :: cs =>
          match readAsciiClass cs with
          | some (item, rest) => readClassItems verbose fuel stack (item :: items) rest
          | none =>
              match readClassOpening verbose cs with
              | none => none
              | some (negated, inner, rest) =>
                  readClassItems verbose fuel (.bracket items negated :: stack) inner rest
      | ']' :: cs =>
          match applyPending (ClassExpr.ofItems items.reverse) stack with
          | (body, [.bracket _ negated]) => some (negated, body, cs)
          | (body, .bracket outer negated :: stack) =>
              readClassItems verbose fuel stack (.bracketed negated body :: outer) cs
          | _ => none
      | '&' :: '&' :: cs => operation .intersection cs
      | '-' :: '-' :: cs => operation .difference cs
      | '~' :: '~' :: cs => operation .symmetricDifference cs
      | body =>
          match readClassRange verbose body with
          | none => none
          | some (item, rest) => readClassItems verbose fuel stack (item :: items) rest

/-- Reads a class, given what follows its opening bracket: whether it is negated, what stands
between the brackets, and what follows the closing one. -/
def readClass (verbose : Bool) (text : List Char) : Option (Bool × ClassExpr × List Char) := do
  let (negated, items, rest) ← readClassOpening verbose text
  readClassItems verbose (rest.length + 1) [.bracket [] negated] items rest

end Tessera.Pattern
