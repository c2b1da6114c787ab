/-
**Traces.**

A trace tells line by line what happened while a text was resolved and assigned.  Lines are indented
by how deep the search was nested.  The verbosity says how much is told: which candidates were
accepted and rejected, also which were entered and given up, and also the texts of those entered.

Main definitions:

* `Tessera.Verbosity` — how much is told;
* `Tessera.TraceStyle` — how it is written;
* `Tessera.traceLines` — the lines of a trace.
-/

import Tessera.Text.Palette
import Tessera.Tree.Editing
import Tessera.Tree.Outline

set_option autoImplicit false

namespace Tessera

/-- How much is told. -/
inductive Verbosity
  /-- Accepted and rejected candidates. -/
  | default
  /-- Also entered candidates and those that were given up. -/
  | verbose
  /-- Also the texts of entered candidates. -/
  | veryVerbose
  deriving DecidableEq, Repr

/-- How a trace is written. -/
structure TraceStyle where
  verbosity : Verbosity
  palette : Palette

namespace TraceStyle

/-- The longest excerpt of a text in a trace. -/
def textLimit : Nat := 24

/-- A definition with its field name. -/
def label (s : TraceStyle) (g : Grammar) (d : DefId) : String :=
  s.palette.paint .definition <|
    match g.name? d with
    | some name => s!"{d.display} {name}"
    | none => d.display

/-- A range of offsets. -/
def range (s : TraceStyle) (start stop : Nat) : String :=
  s.palette.paint .offset s!"{start}..{stop}"

/-- The beginning of a text, quoted and on one line. -/
def text (s : TraceStyle) (text : Text) : String :=
  s.palette.paint .content (String.ofList (quote (escapeBreaks (truncate text textLimit))))

/-- A line at a depth. -/
def line (depth : Nat) (symbol content : String) : String :=
  Tree.indentation depth ++ symbol ++ " " ++ content

/-- The lines of what happened while `source` was resolved, from a depth on. -/
def eventLines (s : TraceStyle) (g : Grammar) (source : Text) : Nat → List Event → List String
  | _, [] => []
  | depth, .enter d start stop :: events =>
      let rest := eventLines s g source (depth + 1) events
      let place := s.label g d ++ " " ++ s.range start stop
      match s.verbosity with
      | .default => rest
      | .verbose => line depth "▶" place :: rest
      | .veryVerbose =>
          line depth "▶" (place ++ " " ++ s.text (slice source start stop)) :: rest
  | depth, .accept d start stop :: events =>
      line (depth - 1) "✓" (s.label g d ++ " " ++ s.range start stop) ::
        eventLines s g source (depth - 1) events
  | depth, .reject d start stop :: events =>
      line (depth - 1) (s.palette.paint .rejected "✗")
          (s.label g d ++ " " ++ s.range start stop) ::
        eventLines s g source (depth - 1) events
  | depth, .backtrack d offset :: events =>
      let rest := eventLines s g source depth events
      match s.verbosity with
      | .default => rest
      | _ => line depth "↩" (s.label g d ++ s!" @{offset}") :: rest

/-- The line of a node that received a content. -/
def noticeLine (s : TraceStyle) (n : Notice) : String :=
  s!"notify {n.node.display} " ++ s.text n.new

end TraceStyle

/-- The lines of a trace: what happened while a text was resolved, and the nodes that received a
content. -/
def traceLines (s : TraceStyle) (g : Grammar) (source : Text) (c : Tree.TracedChange) :
    List String :=
  let notices := match c.result with
    | .ok change => change.notices
    | .error _ => []
  s.eventLines g source 0 c.events ++ notices.map s.noticeLine

end Tessera
