/-
**Assigning contents.**

A split is assigned to a node from above: the node's parts are made to follow the split, each part
is assigned its own split, and then the node takes the text of its range as its content.  So every
node that receives a content is reported once, children before their parents.

Elements of loops are made anew; the alternatives of a choice and the child of an optional are made
on first use and kept.  An alternative that loses and a child that is absent are cleared without a
report.

Afterwards the change travels up to the parents whose contents depend on the node, as long as they
hold one; each is composed anew from its parts and reported once.

Main definitions:

* `Tessera.Notice` — a node received a content;
* `Tessera.Edit` — a tree that is being changed, with the reports so far;
* `Tessera.Edit.assign` — assigns a split to a node;
* `Tessera.Edit.propagate` — carries a change to the ancestors;
* `Tessera.Tree.allocFilled` — a new node that holds its default content.
-/

import Tessera.Search.Resolve
import Tessera.Tree.Basic

set_option autoImplicit false

namespace Tessera

/-- A node received a content. -/
structure Notice where
  node : NodeId
  /-- The content before, if there was one. -/
  old : Option Text
  new : Text
  /-- The listeners of the node, in the order in which they are called. -/
  listeners : List ListenerId
  deriving DecidableEq

/-- A tree that is being changed, and the notices so far, latest first. -/
structure Edit where
  tree : Tree
  notices : List Notice

namespace Edit

/-- Changes the tree without a notice. -/
def onTree (e : Edit) (f : Tree → Tree) : Edit := { e with tree := f e.tree }

/-- Gives a node a content and takes notice. -/
def store (e : Edit) (id : NodeId) (content : Text) : Edit :=
  let n := e.tree.node id
  { tree := e.tree.modify id fun n => { n with content := some content }
    notices := ⟨id, n.content, content, n.listeners⟩ :: e.notices }

/-- A new node below another, without a content. -/
def alloc (e : Edit) (parent : NodeId) (d : DefId) : NodeId × Edit :=
  let (id, t) := Tree.alloc parent d e.tree
  (id, { e with tree := t })

/-- The node that is there, or a new one. -/
def orAlloc (e : Edit) (existing : Option NodeId) (parent : NodeId) (d : DefId) : NodeId × Edit :=
  match existing with
  | some id => (id, e)
  | none => e.alloc parent d

/-- Clears the alternative that was current when another one takes its place. -/
def clearLoser (e : Edit) (alternatives : List (Option NodeId)) (current : Option Nat)
    (index : Nat) : Edit :=
  match current with
  | none => e
  | some previous =>
      if previous = index then e
      else
        match alternatives[previous]?.join with
        | some loser => e.onTree fun t => t.reset loser
        | none => e

/-- The definition of an alternative of a node. -/
def alternativeDef (t : Tree) (id : NodeId) (index : Nat) : DefId :=
  match t.shapeOf id with
  | .choice alternatives => alternatives.getD index 0
  | _ => 0

/-- The definition of the item of an optional or of a loop, for its node. -/
def itemDef (t : Tree) (id : NodeId) : DefId :=
  match t.shapeOf id with
  | .optional item _ => item
  | .loop item _ => item
  | .separated item _ _ _ => item
  | _ => 0

/-- The definition of the separator of a loop, for its node. -/
def separatorDef (t : Tree) (id : NodeId) : DefId :=
  match t.shapeOf id with
  | .separated _ separator _ _ => separator
  | _ => 0

mutual

/-- Makes a node and everything below it follow a split of `text`. -/
def assign (text : Text) : Split → NodeId → Edit → Edit
  | .leaf span, id, e => e.store id (slice text span.start span.stop)
  | .sequence span parts, id, e =>
      let e := match (e.tree.node id).body with
        | .sequence children => assignEach text parts children e
        | _ => e
      e.store id (slice text span.start span.stop)
  | .choice span index inner, id, e =>
      let e := match (e.tree.node id).body with
        | .choice alternatives current =>
            let e := e.clearLoser alternatives current index
            let d := alternativeDef e.tree id index
            let (child, e) := e.orAlloc alternatives[index]?.join id d
            let body : Body := .choice (alternatives.set index (some child)) (some index)
            assign text inner child (e.onTree fun t => t.setBody id body)
        | _ => e
      e.store id (slice text span.start span.stop)
  | .absent span, id, e =>
      let e := match (e.tree.node id).body with
        | .optional child _ =>
            let e := match child with
              | some child => e.onTree fun t => t.reset child
              | none => e
            e.onTree fun t => t.setBody id (.optional child false)
        | _ => e
      e.store id (slice text span.start span.stop)
  | .present span inner, id, e =>
      let e := match (e.tree.node id).body with
        | .optional child _ =>
            let (child, e) := e.orAlloc child id (itemDef e.tree id)
            assign text inner child (e.onTree fun t => t.setBody id (.optional (some child) true))
        | _ => e
      e.store id (slice text span.start span.stop)
  | .loop span items, id, e =>
      let e := match (e.tree.node id).body with
        | .loop old =>
            let e := e.onTree fun t => t.release old
            let (items, e) := spawnEach text items (itemDef e.tree id) id e
            e.onTree fun t => t.setBody id (.loop items)
        | _ => e
      e.store id (slice text span.start span.stop)
  | .separated span items separators, id, e =>
      let e := match (e.tree.node id).body with
        | .separated oldItems oldSeparators =>
            let e := e.onTree fun t => (t.release oldItems).release oldSeparators
            let (items, e) := spawnEach text items (itemDef e.tree id) id e
            let (separators, e) := spawnEach text separators (separatorDef e.tree id) id e
            e.onTree fun t => t.setBody id (.separated items separators)
        | _ => e
      e.store id (slice text span.start span.stop)

/-- Makes nodes follow the parts of a split, one each. -/
def assignEach (text : Text) : List Split → List NodeId → Edit → Edit
  | part :: parts, id :: ids, e => assignEach text parts ids (assign text part id e)
  | _, _, e => e

/-- Makes a new node of the definition `d` for each part of a split. -/
def spawnEach (text : Text) : List Split → DefId → NodeId → Edit → List NodeId × Edit
  | [], _, _, e => ([], e)
  | part :: parts, d, parent, e =>
      let (id, e) := e.alloc parent d
      let (ids, e) := spawnEach text parts d parent (assign text part id e)
      (id :: ids, e)

end

/-- Makes a new node of the definition `d` follow a split of `text`. -/
def spawn (text : Text) (split : Split) (d : DefId) (parent : NodeId) (e : Edit) : NodeId × Edit :=
  let (id, e) := e.alloc parent d
  (id, assign text split id e)

/-- The contents of the active parts of a node, one after the other. -/
def composed (t : Tree) (id : NodeId) : Text :=
  (t.node id).body.active.flatMap fun child => (t.node child).content.getD []

/-- Gives a node the contents of its active parts as its content. -/
def recompose (e : Edit) (id : NodeId) : Edit := e.store id (composed e.tree id)

/-- Carries a change of a node to the ancestors whose contents depend on it, up to the first that
holds none.  `fuel` bounds their number. -/
def propagate : Nat → NodeId → Edit → Edit
  | 0, _, e => e
  | fuel + 1, id, e =>
      match e.tree.activeParent? id with
      | none => e
      | some parent =>
          if (e.tree.node parent).content.isNone then e
          else propagate fuel parent (e.recompose parent)

/-- Carries a change of a node to all ancestors whose contents depend on it. -/
def propagateUp (id : NodeId) (e : Edit) : Edit := propagate (e.tree.slots.size + 1) id e

end Edit

namespace Tree

/-- Gives a new node the default content of its definition, if there is one. -/
def fillDefault (d : DefId) (id : NodeId) (t : Tree) : Tree :=
  match t.grammar.defaultContent? d with
  | none => t
  | some text =>
      match (resolve t.grammar d text).result with
      | .ok split => (Edit.assign text split id ⟨t, []⟩).tree
      | .error _ => t

/-- A new node of a definition.  It and the nodes that come with it hold their default contents. -/
def allocFilled (parent : Option NodeId) (d : DefId) (t : Tree) : NodeId × Tree :=
  allocWith fillDefault t.allocFuel parent d t

end Tree

end Tessera
