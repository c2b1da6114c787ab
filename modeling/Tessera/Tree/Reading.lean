/-
**Reading trees.**

These operations look at a tree and change nothing.  Each takes a handle and fails when it is stale
or names a node of another kind.

Main definitions:

* `Tessera.Tree.content`, `definition`, `shape`, `parent`, `isActive`, `children` — of any node;
* `Tessera.Tree.child`, `field` — of sequences;
* `Tessera.Tree.currentIndex`, `current` — of choices;
* `Tessera.Tree.isPresent` — of optionals;
* `Tessera.Tree.items`, `separators` — of loops.
-/

import Tessera.Tree.Basic
import Tessera.Tree.Error

set_option autoImplicit false

namespace Tessera

namespace Tree

/-! ### Any node -/

/-- The node behind a handle. -/
def get (t : Tree) (id : NodeId) : Except TreeError Node :=
  match t.lookup? id with
  | some n => .ok n
  | none => .error (.unknownNode id)

/-- The fault of asking a node for what only nodes of another kind have. -/
def mismatch {α : Type} (n : Node) (id : NodeId) (expected : NodeShape) : Except TreeError α :=
  .error (.shapeMismatch id expected n.body.shape)

/-- The content of a node. -/
def content (t : Tree) (id : NodeId) : Except TreeError Text := do
  match (← t.get id).content with
  | some text => .ok text
  | none => .error (.noContent id)

/-- Whether a node holds a content. -/
def isSet (t : Tree) (id : NodeId) : Except TreeError Bool := do
  return (← t.get id).content.isSome

/-- The definition of a node. -/
def definition (t : Tree) (id : NodeId) : Except TreeError DefId := do
  return (← t.get id).definition

/-- The pattern of the definition of a node. -/
def regex (t : Tree) (id : NodeId) : Except TreeError Text := do
  return t.grammar.regex (← t.get id).definition

/-- The kind of a node. -/
def shape (t : Tree) (id : NodeId) : Except TreeError NodeShape := do
  return (← t.get id).body.shape

/-- The parent of a node, if it has one. -/
def parent (t : Tree) (id : NodeId) : Except TreeError (Option NodeId) := do
  return (← t.get id).parent

/-- Whether the content of the parent depends on a node. -/
def isActive (t : Tree) (id : NodeId) : Except TreeError Bool := do
  let _ ← t.get id
  return (t.activeParent? id).isSome

/-- The parts that make up the content of a node, in order. -/
def children (t : Tree) (id : NodeId) : Except TreeError (List NodeId) := do
  return (← t.get id).body.active

/-- The number of children of a sequence or of items of a loop. -/
def len (t : Tree) (id : NodeId) : Except TreeError Nat := do
  let n ← t.get id
  match n.body with
  | .sequence children => .ok children.length
  | .loop items => .ok items.length
  | .separated items _ => .ok items.length
  | _ => mismatch n id .loop

/-- The part of a given number. -/
def pick (id : NodeId) (parts : List NodeId) (index : Nat) : Except TreeError NodeId :=
  match parts[index]? with
  | some part => .ok part
  | none => .error (.indexOutOfBounds id index parts.length)

/-! ### Sequences -/

/-- The children of a sequence. -/
def sequenceChildren (t : Tree) (id : NodeId) : Except TreeError (List NodeId) := do
  let n ← t.get id
  match n.body with
  | .sequence children => .ok children
  | _ => mismatch n id .sequence

/-- The child of a given number. -/
def child (t : Tree) (id : NodeId) (index : Nat) : Except TreeError NodeId := do
  pick id (← t.sequenceChildren id) index

/-- The first child of exactly the given definition. -/
def childOf (t : Tree) (id : NodeId) (d : DefId) : Except TreeError NodeId := do
  match (← t.sequenceChildren id).find? fun c => (t.node c).definition == d with
  | some c => .ok c
  | none => .error (.notAChild id d)

/-- The first child with the given field name. -/
def field (t : Tree) (id : NodeId) (name : String) : Except TreeError NodeId := do
  match (← t.sequenceChildren id).find? fun c =>
      t.grammar.name? (t.node c).definition == some name with
  | some c => .ok c
  | none => .error (.unknownField id name)

/-! ### Choices and optionals -/

/-- The number of the current alternative of a choice. -/
def currentIndex (t : Tree) (id : NodeId) : Except TreeError (Option Nat) := do
  let n ← t.get id
  match n.body with
  | .choice _ current => .ok current
  | _ => mismatch n id .choice

/-- The node of the current alternative of a choice. -/
def current (t : Tree) (id : NodeId) : Except TreeError (Option NodeId) := do
  let n ← t.get id
  match n.body with
  | .choice alternatives current => .ok (Body.currentOf alternatives current)
  | _ => mismatch n id .choice

/-- Whether an optional part is there. -/
def isPresent (t : Tree) (id : NodeId) : Except TreeError Bool := do
  let n ← t.get id
  match n.body with
  | .optional _ present => .ok present
  | _ => mismatch n id .optional

/-! ### Loops -/

/-- The items of a loop. -/
def items (t : Tree) (id : NodeId) : Except TreeError (List NodeId) := do
  let n ← t.get id
  match n.body with
  | .loop items => .ok items
  | .separated items _ => .ok items
  | _ => mismatch n id .loop

/-- The item of a given number. -/
def item (t : Tree) (id : NodeId) (index : Nat) : Except TreeError NodeId := do
  pick id (← t.items id) index

/-- The separators of a separated loop. -/
def separators (t : Tree) (id : NodeId) : Except TreeError (List NodeId) := do
  let n ← t.get id
  match n.body with
  | .separated _ separators => .ok separators
  | _ => mismatch n id .separated

/-- The separator of a given number. -/
def separator (t : Tree) (id : NodeId) (index : Nat) : Except TreeError NodeId := do
  pick id (← t.separators id) index

/-- What a loop node repeats. -/
structure LoopRule where
  item : DefId
  /-- The separator and the text that it has by default, for separated loops. -/
  separator : Option (DefId × Option Text)
  repetition : Repetition

/-- What a loop node repeats. -/
def loopRule (t : Tree) (id : NodeId) : Except TreeError LoopRule := do
  let n ← t.get id
  match t.grammar.shape n.definition with
  | .loop item repetition => .ok ⟨item, none, repetition⟩
  | .separated item separator default repetition =>
      .ok ⟨item, some (separator, default), repetition⟩
  | _ => mismatch n id .loop

end Tree

end Tessera
