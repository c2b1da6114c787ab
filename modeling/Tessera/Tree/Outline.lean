/-
**Outlines of trees.**

An outline shows a node and the nodes that make up its content, one on each line and indented by
depth: the kind, the definition, the field name, the state and the content.

Main definitions:

* `Tessera.Tree.outline` — the outline of a node.
-/

import Tessera.Text.Excerpt
import Tessera.Text.Quoted
import Tessera.Tree.Reading

set_option autoImplicit false

namespace Tessera

namespace Tree

/-- The longest excerpt of a content in an outline. -/
def outlineLimit : Nat := 40

/-- What is said about the state of a node besides its content. -/
def stateText (n : Node) : String :=
  match n.body with
  | .choice _ (some index) => s!" [{index}]"
  | .optional _ false => if n.content.isSome then " absent" else ""
  | _ => ""

/-- The content of a node in an outline. -/
def contentText (n : Node) : String :=
  match n.content with
  | some content => " " ++ String.ofList (quote (truncate content outlineLimit))
  | none => " unset"

/-- A number of blanks, two for each level. -/
def indentation (depth : Nat) : String := String.ofList (List.replicate (2 * depth) ' ')

/-- The line of one node. -/
def outlineLine (g : Grammar) (depth : Nat) (n : Node) : String :=
  let name := match g.name? n.definition with
    | some name => " " ++ name
    | none => ""
  indentation depth ++ s!"{n.body.shape.display} {n.definition.display}" ++ name ++
    stateText n ++ contentText n ++ "\n"

/-- The lines of a node and of the nodes that make up its content.  `fuel` bounds the depth. -/
def outlineLines (t : Tree) : Nat → Nat → NodeId → List String
  | 0, _, _ => []
  | fuel + 1, depth, id =>
      let n := t.node id
      outlineLine t.grammar depth n :: n.body.active.flatMap (outlineLines t fuel (depth + 1))

/-- The outline of a node. -/
def outline (t : Tree) (id : NodeId) : Except TreeError String := do
  let _ ← t.get id
  return String.join (t.outlineLines (t.slots.size + 1) 0 id)

end Tree

end Tessera
