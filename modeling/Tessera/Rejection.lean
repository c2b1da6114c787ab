/-
**Rejections.**

A rejection says where and why a text does not fit a definition: the definition that was tried last
at the deepest point, its pattern, the whole text, and the range that does not fit.

Main definitions:

* `Tessera.Reason` — why a candidate was given up;
* `Tessera.Rejection` — a rejected text with the range and the reason;
* `Tessera.Rejection.headline`, `Tessera.Rejection.message` — what is said about it, without and
  with the place.
-/

import Tessera.Grammar.Rule
import Tessera.Text.Excerpt
import Tessera.Text.Location

set_option autoImplicit false

namespace Tessera

/-- Why a candidate was given up. -/
inductive Reason
  /-- The definition does not match the text of the range. -/
  | mismatch
  /-- No alternative of a choice accepts the text. -/
  | noAlternative
  /-- Text is left over after the last item of a sequence. -/
  | trailingContent
  /-- The text ended before there were enough items. -/
  | tooFewItems
  /-- Text is left over after the largest number of items. -/
  | tooManyItems
  deriving DecidableEq, Repr

/-- A text that does not fit, with the place and the reason. -/
structure Rejection where
  definition : DefId
  /-- The field name of the definition, if it has one. -/
  name : Option String
  /-- The pattern that was matched; there is none when no alternative applies. -/
  regex : Option Text
  content : Text
  start : Nat
  stop : Nat
  reason : Reason
  deriving DecidableEq, Repr

namespace Rejection

/-- The longest excerpt of the content in a message. -/
def excerptLimit : Nat := 32

/-- The longest excerpt of a pattern in a message. -/
def regexLimit : Nat := 48

/-- Where the range begins. -/
def location (r : Rejection) : Location := lineColumn r.content r.start

/-- Where the range ends. -/
def endLocation (r : Rejection) : Location := lineColumn r.content r.stop

/-- The field name between grave accents, or the number of the definition. -/
def subject (r : Rejection) : String :=
  match r.name with
  | some name => "\x60" ++ name ++ "\x60"
  | none => r.definition.display

/-- What is wrong, without the place. -/
def headline (r : Rejection) : String :=
  match r.reason with
  | .mismatch => s!"content does not match {r.subject}"
  | .noAlternative => s!"no alternative of {r.subject} accepts the content"
  | .trailingContent => s!"unexpected content after {r.subject}"
  | .tooFewItems => s!"too few items for {r.subject}"
  | .tooManyItems => s!"too many items for {r.subject}"

/-- The text that the rejection points at: that of the range or, if the range is empty, all that
follows it. -/
def pointedAt (r : Rejection) : Text :=
  let text? :=
    if r.start < r.stop then slice? r.content r.start r.stop
    else slice? r.content r.start (byteLength r.content)
  text?.getD []

/-- The beginning of the text that the rejection points at, on one line. -/
def excerpt (r : Rejection) : Text := escapeBreaks (truncate r.pointedAt excerptLimit)

/-- What is wrong and where, what was expected, and what stands there instead. -/
def message (r : Rejection) : String :=
  let expected := match r.regex with
    | some regex =>
        ", expected /" ++ String.ofList (escapeBreaks (truncate regex regexLimit)) ++ "/"
    | none => ""
  s!"{r.headline} at {r.location.display}" ++ expected ++ ": \"" ++ String.ofList r.excerpt ++ "\""

end Rejection

end Tessera
