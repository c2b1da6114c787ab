/-
**From the syntax of a pattern to the expression that it denotes.**

The meaning of a leaf depends on the flags in force: whether case matters, whether the dot matches
line feeds, whether anchors look at lines, and whether classes know all of Unicode or ASCII alone.
Flags change in the middle of a group and keep their value to the end of that group.

A pattern has no meaning when it names a property that does not exist, when it asks for Unicode
where Unicode is switched off, and when it could match a part of a character.

Main definitions:

* `Tessera.Pattern.Mode` — the flags in force;
* `Tessera.Pattern.Ast.regex?` — the expression that a pattern denotes, with the flags after it;
* `Tessera.Pattern.Regex.ofText?` — the expression of the text of a pattern;
* `Tessera.Pattern.Regex.compile?` — the same, for patterns that are not too large.
-/

import Tessera.Pattern.Parser
import Tessera.Pattern.Regex
import Tessera.Unicode.CaseFolding
import Tessera.Unicode.Lookup

set_option autoImplicit false

namespace Tessera.Pattern

/-! ### Flags -/

/-- The flags in force at a point of a pattern. -/
structure Mode where
  caseInsensitive : Bool
  multiLine : Bool
  dotMatchesNewLine : Bool
  unicode : Bool
  crlf : Bool
  deriving DecidableEq, Repr

/-- The flags in force at the beginning of a pattern. -/
def Mode.start : Mode := ⟨false, false, false, true, false⟩

/-- The flags in force after the given ones were set. -/
def Mode.set (m : Mode) (items : List FlagItem) : Mode :=
  let state (f : Flag) (old : Bool) : Bool := (flagState f true items).getD old
  { caseInsensitive := state .caseInsensitive m.caseInsensitive
    multiLine := state .multiLine m.multiLine
    dotMatchesNewLine := state .dotMatchesNewLine m.dotMatchesNewLine
    unicode := state .unicode m.unicode
    crlf := state .crlf m.crlf }

/-! ### Classes -/

/-- The members of a named ASCII class. -/
def AsciiClass.members (c : AsciiClass) : CodePointSet :=
  CodePointSet.ofText <| match c with
    | .alnum => "30-39 41-5A 61-7A"
    | .alpha => "41-5A 61-7A"
    | .ascii => "0-7F"
    | .blank => "9 20"
    | .cntrl => "0-1F 7F"
    | .digit => "30-39"
    | .graph => "21-7E"
    | .lower => "61-7A"
    | .print => "20-7E"
    | .punct => "21-2F 3A-40 5B-60 7B-7E"
    | .space => "9-D 20"
    | .upper => "41-5A"
    | .word => "30-39 41-5A 5F 61-7A"
    | .xdigit => "30-39 41-46 61-66"

/-- The members of a class with a one-letter name. -/
def Shorthand.members (unicode : Bool) (k : Shorthand) : CodePointSet :=
  match k, unicode with
  | .digit, true => decimalDigit
  | .space, true => whiteSpace
  | .word, true => wordCharacter
  | .digit, false => AsciiClass.digit.members
  | .space, false => AsciiClass.space.members
  | .word, false => AsciiClass.word.members

/-- The members of a property, if it exists. -/
def PropertyName.members? : PropertyName → Option CodePointSet
  | .alone name => namedProperty? name
  | .valued name value => propertyWithValue? name value

/-- A set closed under case where case does not matter. -/
def Mode.fold (m : Mode) (s : CodePointSet) : CodePointSet :=
  if m.caseInsensitive then (if m.unicode then s.foldCase else s.foldAsciiCase) else s

/-- A set, or its complement when it is negated.  Without Unicode the result must be ASCII, for else
it would match parts of characters. -/
def Mode.close (m : Mode) (negated : Bool) (s : CodePointSet) : Option CodePointSet :=
  let s := if negated then s.complement else s
  if m.unicode || s.isAscii then some s else none

/-- The character of a literal.  Without Unicode an escape of two digits denotes a byte, which must
be ASCII. -/
def Mode.literal (m : Mode) (l : Literal) : Option Nat :=
  let n := l.char.toNat
  if !m.unicode && l.byte && decide (128 ≤ n) then none else some n

/-- The character of a literal inside a class. -/
def Mode.classLiteral (m : Mode) (l : Literal) : Option Nat :=
  let n := l.char.toNat
  if !m.unicode && decide (128 ≤ n) then none else some n

/-- The set of a property. -/
def Mode.property (m : Mode) (negated : Bool) (name : PropertyName) : Option CodePointSet :=
  if m.unicode then name.members?.bind fun s => m.close negated (m.fold s) else none

mutual

/-- The members of what stands between square brackets. -/
def ClassExpr.members? (m : Mode) : ClassExpr → Option CodePointSet
  | .empty => some CodePointSet.empty
  | .literal l => (m.classLiteral l).map CodePointSet.single
  | .range lo hi => do
      return CodePointSet.range (← m.classLiteral lo) (← m.classLiteral hi)
  | .ascii negated name => m.close negated (m.fold name.members)
  | .property negated name => m.property negated name
  | .shorthand negated kind => m.close negated (kind.members m.unicode)
  | .bracketed negated body => do m.close negated (m.fold (← body.members? m))
  | .union items => ClassExpr.membersList? m items
  | .op kind left right => do
      let left := m.fold (← left.members? m)
      let right := m.fold (← right.members? m)
      return match kind with
        | .intersection => left.inter right
        | .difference => left.diff right
        | .symmetricDifference => left.symmDiff right

/-- The members of several classes together. -/
def ClassExpr.membersList? (m : Mode) : List ClassExpr → Option CodePointSet
  | [] => some CodePointSet.empty
  | c :: cs => do
      return (← c.members? m).union (← ClassExpr.membersList? m cs)

end

/-! ### Patterns -/

/-- The condition that an anchor asks for. -/
def Mode.look (m : Mode) : Anchor → Look
  | .lineStart => if m.multiLine then .lineStart m.crlf else .textStart
  | .lineEnd => if m.multiLine then .lineEnd m.crlf else .textEnd
  | .textStart => .textStart
  | .textEnd => .textEnd
  | .wordBoundary => .word m.unicode .boundary
  | .notWordBoundary => .word m.unicode .interior
  | .wordStart => .word m.unicode .start
  | .wordEnd => .word m.unicode .stop
  | .wordStartHalf => .word m.unicode .startHalf
  | .wordEndHalf => .word m.unicode .stopHalf

/-- The characters that the dot matches.  Without Unicode it would match parts of characters. -/
def Mode.dot (m : Mode) : Option CodePointSet :=
  if !m.unicode then none
  else if m.dotMatchesNewLine then some CodePointSet.all
  else if m.crlf then some (CodePointSet.ofText "A D").complement
  else some (CodePointSet.single 0x0A).complement

mutual

/-- The expression that a pattern denotes, and the flags in force after it. -/
def Ast.regex? (m : Mode) : Ast → Option (Regex × Mode)
  | .empty => some (.empty, m)
  | .flags items => some (.empty, m.set items)
  | .literal l => do
      return (.set (m.fold (CodePointSet.single (← m.literal l))), m)
  | .dot => m.dot.map fun s => (.set s, m)
  | .anchor a => some (.look (m.look a), m)
  | .property negated name => (m.property negated name).map fun s => (.set s, m)
  | .shorthand negated kind => (m.close negated (kind.members m.unicode)).map fun s => (.set s, m)
  | .bracketed negated body => do
      return (.set (← m.close negated (m.fold (← body.members? m))), m)
  | .repetition body min max => do
      let (r, m) ← body.regex? m
      return (r.repetition min max, m)
  | .group items body => do
      let (r, _) ← body.regex? (m.set items)
      return (r, m)
  | .concat items => do
      let (rs, m) ← Ast.regexList? m items
      return (Regex.seqs rs, m)
  | .alternation branches => do
      let (rs, m) ← Ast.regexList? m branches
      return (Regex.alts rs, m)

/-- The expressions that several patterns denote, each read with the flags after the one before. -/
def Ast.regexList? (m : Mode) : List Ast → Option (List Regex × Mode)
  | [] => some ([], m)
  | a :: as => do
      let (r, m) ← a.regex? m
      let (rs, m) ← Ast.regexList? m as
      return (r :: rs, m)

end

/-- The expression that the text of a pattern denotes. -/
def Regex.ofText? (text : List Char) : Option Regex := do
  let a ← Ast.parse? text
  let (r, _) ← a.regex? Mode.start
  return r

/-- The expression of a pattern that is not too large to be compiled. -/
def Regex.compile? (pattern : List Char) : Option Regex :=
  (Regex.ofText? pattern).filter fun r => decide (r.weight ≤ weightLimit)

end Tessera.Pattern
