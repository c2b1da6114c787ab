/-
**Single characters, escapes and repetition counts of patterns.**

The readers of this module take what is left of a pattern and give back what they read together with
what follows it.  They fail on anything that is not well formed.

In verbose mode, which the flag `x` switches on, blanks and comments may stand between the parts of
a pattern; a comment runs from `#` to the end of its line.

Main definitions:

* `Tessera.Pattern.skipBlanks` — what is left after blanks and comments;
* `Tessera.Pattern.readEscape` — what a backslash introduces;
* `Tessera.Pattern.readCount` — the bounds of a counted repetition.
-/

import Tessera.Pattern.Syntax
import Tessera.Unicode.Property

set_option autoImplicit false

namespace Tessera.Pattern

/-! ### Blanks and comments -/

/-- What is left after blanks and comments; `comment` says whether the text begins inside one. -/
def skipVerbose (comment : Bool) : List Char → List Char
  | [] => []
  | c :: cs =>
      if comment then skipVerbose (c != '\n') cs
      else if isWhiteSpace c then skipVerbose false cs
      else if c = '#' then skipVerbose true cs
      else c :: cs

/-- What is left after blanks and comments in verbose mode; the text itself otherwise. -/
def skipBlanks (verbose : Bool) (text : List Char) : List Char :=
  if verbose then skipVerbose false text else text

/-- Reads characters that satisfy `p`, skipping blanks after each.  Gives the characters and what is
left; at most `fuel` characters are read. -/
def readWhile (verbose : Bool) (p : Char → Bool) : Nat → List Char → List Char × List Char
  | 0, text => ([], text)
  | _, [] => ([], [])
  | fuel + 1, c :: cs =>
      if p c then
        let (read, rest) := readWhile verbose p fuel (skipBlanks verbose cs)
        (c :: read, rest)
      else ([], c :: cs)

/-! ### Characters with a meaning of their own -/

/-- The characters that mean something in a pattern unless a backslash stands before them. -/
def metaCharacters : List Char :=
  ['\\', '.', '+', '*', '?', '(', ')', '|', '[', ']', '\x7b', '\x7d', '^', '$', '#', '&', '-', '~']

/-- Whether a character means something in a pattern. -/
def isMeta (c : Char) : Bool := metaCharacters.contains c

/-- Whether a character may carry a backslash that changes nothing: ASCII characters other than
letters, digits and angle brackets. -/
def isEscapable (c : Char) : Bool :=
  isMeta c || (decide (c.toNat < 128) && !c.isAlphanum && c != '<' && c != '>')

/-- The text as a pattern that matches just this text. -/
def escape (text : List Char) : List Char :=
  text.flatMap fun c => if isMeta c then ['\\', c] else [c]

/-! ### Escapes -/

/-- What stands outside classes and matches at most one character. -/
inductive Primitive
  | literal (l : Literal)
  | dot
  | anchor (a : Anchor)
  | property (negated : Bool) (name : PropertyName)
  | shorthand (negated : Bool) (kind : Shorthand)

/-- The character of a number, when there is one. -/
def charOfNumber? (n : Nat) : Option Char :=
  if n.isValidChar then some (Char.ofNat n) else none

/-- Reads exactly `digits` hexadecimal digits after the number read so far. -/
def readHexDigits (verbose : Bool) : Nat → Nat → List Char → Option (Nat × List Char)
  | 0, n, text => some (n, text)
  | _ + 1, _, [] => none
  | digits + 1, n, c :: cs =>
      match CodePointSet.hexValue? c with
      | some d => readHexDigits verbose digits (16 * n + d) (skipBlanks verbose cs)
      | none => none

/-- Reads the number of a character: digits between braces, or a fixed number of digits. -/
def readHex (verbose : Bool) (kind : Char) (text : List Char) : Option (Primitive × List Char) :=
  match skipBlanks verbose text with
  | [] => none
  | '\x7b' :: cs =>
      let body := skipBlanks verbose cs
      match readWhile verbose (· != '\x7d') body.length body with
      | (digits, '\x7d' :: rest) =>
          if digits.isEmpty || digits.any (fun c => (CodePointSet.hexValue? c).isNone) then none
          else
            (charOfNumber? (CodePointSet.hexNumber digits)).map fun c =>
              (.literal ⟨c, false⟩, skipBlanks verbose rest)
      | _ => none
  | body =>
      let digits := if kind = 'x' then 2 else if kind = 'u' then 4 else 8
      match readHexDigits verbose digits 0 body with
      | none => none
      | some (n, rest) =>
          (charOfNumber? n).map fun c => (.literal ⟨c, kind == 'x'⟩, rest)

/-- The parts of a text around its first `!=`, if it has one; `before` is read already, latest
first. -/
def cutAtUnequal (before : List Char) : List Char → Option (List Char × List Char)
  | [] => none
  | '!' :: '=' :: rest => some (before.reverse, rest)
  | c :: rest => cutAtUnequal (c :: before) rest

/-- The parts of a text around the first `sep`, if it has one. -/
def cutAtChar (sep : Char) (text : List Char) : Option (List Char × List Char) :=
  if text.contains sep then
    some (text.takeWhile (· != sep), (text.dropWhile (· != sep)).tail)
  else none

/-- The property that the text between braces names.  A value is separated by `!=`, `:` or `=`,
which mean the same. -/
def propertyOfName (name : List Char) : PropertyName :=
  match (cutAtUnequal [] name).or ((cutAtChar ':' name).or (cutAtChar '=' name)) with
  | some (property, value) => .valued (String.ofList property) (String.ofList value)
  | none => .alone (String.ofList name)

/-- Reads the name of a property: a name between braces or one letter. -/
def readProperty (verbose negated : Bool) (text : List Char) : Option (Primitive × List Char) :=
  match skipBlanks verbose text with
  | [] => none
  | '\x7b' :: cs =>
      let body := skipBlanks verbose cs
      match readWhile verbose (· != '\x7d') body.length body with
      | (name, '\x7d' :: rest) => some (.property negated (propertyOfName name), rest)
      | _ => none
  | c :: cs =>
      if c = '\\' then none
      else some (.property negated (.alone (String.singleton c)), skipBlanks verbose cs)

/-- Reads the kind of a word boundary between braces.  `none` is a syntax error; without a name
between the braces they belong to a repetition and nothing is read. -/
def readBoundaryKind (verbose : Bool) (text : List Char) : Option (Anchor × List Char) :=
  let isNameChar (c : Char) : Bool := c.isAlpha || c == '-'
  match text with
  | '\x7b' :: cs =>
      match skipBlanks verbose cs with
      | [] => none
      | c :: rest =>
          if !isNameChar c then some (.wordBoundary, text)
          else
            match readWhile verbose isNameChar (rest.length + 1) (c :: rest) with
            | (name, '\x7d' :: rest) =>
                match String.ofList name with
                | "start" => some (.wordStart, rest)
                | "end" => some (.wordEnd, rest)
                | "start-half" => some (.wordStartHalf, rest)
                | "end-half" => some (.wordEndHalf, rest)
                | _ => none
            | _ => none
  | _ => some (.wordBoundary, text)

/-- Reads what a backslash introduces, given what follows the backslash. -/
def readEscape (verbose : Bool) : List Char → Option (Primitive × List Char)
  | [] => none
  | c :: cs =>
      let char (d : Char) : Option (Primitive × List Char) := some (.literal ⟨d, false⟩, cs)
      let anchor (a : Anchor) : Option (Primitive × List Char) := some (.anchor a, cs)
      if c.isDigit then none
      else if c = 'x' ∨ c = 'u' ∨ c = 'U' then readHex verbose c cs
      else if c = 'p' ∨ c = 'P' then readProperty verbose (c == 'P') cs
      else if isEscapable c then char c
      else
        match c with
        | 'd' => some (.shorthand false .digit, cs)
        | 'D' => some (.shorthand true .digit, cs)
        | 's' => some (.shorthand false .space, cs)
        | 'S' => some (.shorthand true .space, cs)
        | 'w' => some (.shorthand false .word, cs)
        | 'W' => some (.shorthand true .word, cs)
        | 'a' => char '\x07'
        | 'f' => char '\x0c'
        | 't' => char '\t'
        | 'n' => char '\n'
        | 'r' => char '\r'
        | 'v' => char '\x0b'
        | 'A' => anchor .textStart
        | 'z' => anchor .textEnd
        | 'b' => (readBoundaryKind verbose cs).map fun (a, rest) => (.anchor a, rest)
        | 'B' => anchor .notWordBoundary
        | '<' => anchor .wordStart
        | '>' => anchor .wordEnd
        | _ => none

/-! ### Counts -/

/-- The largest count of a repetition. -/
def maxCount : Nat := UInt32.size - 1

/-- Reads a decimal number with blanks around it.  The inner result is `none` when there are no
digits or the number is too large. -/
def readDecimal (verbose : Bool) (text : List Char) : Option Nat × List Char :=
  let body := text.dropWhile isWhiteSpace
  let (digits, rest) := readWhile verbose Char.isDigit body.length body
  let rest := (readWhile verbose isWhiteSpace rest.length rest).2
  let n := digits.foldl (fun n c => 10 * n + (c.toNat - '0'.toNat)) 0
  (if digits.isEmpty || decide (maxCount < n) then none else some n, rest)

/-- Skips the question mark after an operator. -/
def skipLazy : List Char → List Char
  | '?' :: cs => cs
  | cs => cs

/-- The bounds of a count, if the upper one is not below the lower one. -/
def checkBounds (bounds : Nat × Option Nat) : Option (Nat × Option Nat) :=
  if bounds.2.all (bounds.1 ≤ ·) then some bounds else none

/-- Reads the closing brace of a count, with the question mark that may follow it. -/
def closeCount (verbose : Bool) (bounds : Nat × Option Nat) :
    List Char → Option ((Nat × Option Nat) × List Char)
  | '\x7d' :: rest =>
      (checkBounds bounds).map fun bounds => (bounds, skipLazy (skipBlanks verbose rest))
  | _ => none

/-- Reads what follows the lower bound of a count. -/
def readUpper (verbose : Bool) (lower : Nat) :
    List Char → Option ((Nat × Option Nat) × List Char)
  | ',' :: cs =>
      match skipBlanks verbose cs with
      | '\x7d' :: rest => closeCount verbose (lower, none) ('\x7d' :: rest)
      | body =>
          match readDecimal verbose body with
          | (none, _) => none
          | (some upper, rest) => closeCount verbose (lower, some upper) rest
  | rest => closeCount verbose (lower, some lower) rest

/-- Reads the bounds of a counted repetition, given what follows the opening brace, with the
question mark that may follow the closing one. -/
def readCount (verbose : Bool) (text : List Char) : Option ((Nat × Option Nat) × List Char) :=
  match skipBlanks verbose text with
  | [] => none
  | body =>
      match readDecimal verbose body with
      | (none, _) => none
      | (some lower, rest) => readUpper verbose lower rest

end Tessera.Pattern
