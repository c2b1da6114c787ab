/-
**Trees.**

A tree holds the nodes that were built from one grammar, in slots, and the slots that are free.  A
new node takes the slot that was freed last, or a new slot when none is free.

Main definitions:

* `Tessera.Tree` — trees;
* `Tessera.Tree.lookup?` — the node behind a handle, unless the handle is stale;
* `Tessera.Tree.occupy` — puts a node into a slot;
* `Tessera.Tree.allocWith` — a new node with the nodes that come with it;
* `Tessera.Tree.release` — frees nodes and everything below them.
-/

import Tessera.Grammar.Basic
import Tessera.Tree.Node

set_option autoImplicit false

namespace Tessera

/-- The nodes built from one grammar. -/
structure Tree where
  grammar : Grammar
  slots : Array Node
  /-- The free slots, the one that was freed last first. -/
  free : List Nat
  nextListener : ListenerId

namespace Tree

/-- The tree without nodes. -/
def empty (g : Grammar) : Tree := ⟨g, #[], [], 0⟩

/-- The number of live nodes. -/
def nodeCount (t : Tree) : Nat := t.slots.size - t.free.length

/-! ### Looking up -/

/-- What stands in the slot of a handle. -/
def node (t : Tree) (id : NodeId) : Node := t.slots.getD id.index default

/-- The node behind a handle; a stale handle and one of another tree have none. -/
def lookup? (t : Tree) (id : NodeId) : Option Node :=
  match t.slots[id.index]? with
  | some n => if n.generation = id.generation then some n else none
  | none => none

/-- The structural rule of a node. -/
def shapeOf (t : Tree) (id : NodeId) : Rule := t.grammar.shape (t.node id).definition

/-! ### Changing single nodes -/

/-- Changes what stands in the slot of a handle. -/
def modify (t : Tree) (id : NodeId) (f : Node → Node) : Tree :=
  { t with slots := t.slots.setIfInBounds id.index (f (t.node id)) }

/-- Gives a node other parts. -/
def setBody (t : Tree) (id : NodeId) (body : Body) : Tree :=
  t.modify id fun n => { n with body := body }

/-- Takes the content of a node away. -/
def clearContent (t : Tree) (id : NodeId) : Tree :=
  t.modify id fun n => { n with content := none }

/-- Puts a node into the slot that was freed last, or into a new one, and gives its handle. -/
def occupy (t : Tree) (n : Node) : NodeId × Tree :=
  match t.free with
  | [] => (⟨t.slots.size, 0⟩, { t with slots := t.slots.push { n with generation := 0 } })
  | i :: free =>
      let generation := (t.slots.getD i default).generation
      (⟨i, generation⟩,
        { t with
          slots := t.slots.setIfInBounds i { n with generation := generation }
          free := free })

/-- Frees the slot of a node.  Its generation grows, and content, parent, parts and listeners are
dropped. -/
def vacate (t : Tree) (id : NodeId) : Tree :=
  let t := t.modify id fun n =>
    { generation := n.generation + 1
      definition := n.definition
      content := none
      parent := none
      body := .leaf
      listeners := [] }
  { t with free := id.index :: t.free }

/-! ### New nodes -/

/-- A new node of a definition, without a content and without the nodes below it. -/
def freshNode (t : Tree) (d : DefId) (parent : Option NodeId) : Node :=
  { generation := 0
    definition := d
    content := none
    parent := parent
    body := .fresh (t.grammar.shape d)
    listeners := [] }

/-- New nodes for several definitions, one after the other. -/
def allocEach (alloc : DefId → Tree → NodeId × Tree) : List DefId → Tree → List NodeId × Tree
  | [], t => ([], t)
  | d :: ds, t =>
      let (id, t) := alloc d t
      let (ids, t) := allocEach alloc ds t
      (id :: ids, t)

/-- A new node of a definition.  The children of a sequence come with it; `fill` is applied to every
new node once its children are there.  `fuel` bounds the nesting of sequences. -/
def allocWith (fill : DefId → NodeId → Tree → Tree) :
    Nat → Option NodeId → DefId → Tree → NodeId × Tree
  | 0, parent, d, t => t.occupy (t.freshNode d parent)
  | fuel + 1, parent, d, t =>
      let (id, t) := t.occupy (t.freshNode d parent)
      match t.grammar.shape d with
      | .sequence items =>
          let (children, t) := allocEach (allocWith fill fuel (some id)) items t
          (id, fill d id (t.setBody id (.sequence children)))
      | _ => (id, fill d id t)

/-- More nesting of sequences than any grammar has: a sequence never creates itself. -/
def allocFuel (t : Tree) : Nat := t.grammar.size + 1

/-- A new node below another, without a content. -/
def alloc (parent : NodeId) (d : DefId) (t : Tree) : NodeId × Tree :=
  allocWith (fun _ _ t => t) t.allocFuel (some parent) d t

/-! ### Released nodes -/

/-- Frees a node and everything below it: the node first, and then its parts from the last to the
first.  A stale handle frees nothing.  `fuel` bounds the depth. -/
def releaseNode : Nat → Tree → NodeId → Tree
  | 0, t, _ => t
  | fuel + 1, t, id =>
      match t.lookup? id with
      | none => t
      | some n => n.body.owned.reverse.foldl (releaseNode fuel) (t.vacate id)

/-- Frees several nodes and everything below them, the last one first. -/
def release (t : Tree) (ids : List NodeId) : Tree :=
  ids.reverse.foldl (releaseNode (t.slots.size + 1)) t

/-- Takes the contents of a node and of all nodes below it away.  The elements of loops are
released; all other nodes stay for later use.  `fuel` bounds the depth. -/
def resetNode : Nat → Tree → NodeId → Tree
  | 0, t, _ => t
  | fuel + 1, t, id =>
      let body := (t.node id).body
      let t := t.clearContent id
      match body with
      | .leaf => t
      | .sequence children => children.reverse.foldl (resetNode fuel) t
      | .choice alternatives current =>
          (Body.currentOf alternatives current).toList.foldl (resetNode fuel)
            (t.setBody id (.choice alternatives none))
      | .optional child _ =>
          child.toList.foldl (resetNode fuel) (t.setBody id (.optional child false))
      | .loop items => (t.setBody id (.loop [])).release items
      | .separated items separators =>
          (t.setBody id (.separated [] [])).release (items ++ separators)

/-- Takes the contents of a node and of all nodes below it away. -/
def reset (t : Tree) (id : NodeId) : Tree := resetNode (t.slots.size + 1) t id

/-! ### Parents -/

/-- The parent whose content depends on a node. -/
def activeParent? (t : Tree) (id : NodeId) : Option NodeId :=
  (t.node id).parent.filter fun p => (t.node p).body.dependsOn id

end Tree

end Tessera
