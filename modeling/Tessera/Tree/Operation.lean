/-
**Using a tree.**

A tree is used through calls of its operations, one after the other.  A call that fails leaves the
tree as it is; a call that succeeds may call listeners, and may answer with the handle of a node.

Main definitions:

* `Tessera.Operation` — the calls that may change a tree;
* `Tessera.Tree.perform` — what a call does;
* `Tessera.ListenerCall` — what a listener is told;
* `Tessera.Session` — a tree in use;
* `Tessera.Session.run` — a run of calls, from the empty tree.
-/

import Tessera.Tree.Editing

set_option autoImplicit false

namespace Tessera

/-- A call that may change a tree. -/
inductive Operation
  | create (d : DefId)
  | setContent (node : NodeId) (text : Text)
  | insert (node : NodeId) (index : Nat) (text : Text)
  | push (node : NodeId) (text : Text)
  | remove (node : NodeId) (index : Nat)
  | alternative (node : NodeId) (index : Nat)
  | alternativeOf (node : NodeId) (d : DefId)
  | optionalChild (node : NodeId)
  | addListener (node : NodeId)
  | removeListener (node : NodeId) (listener : ListenerId)
  deriving DecidableEq

/-- What a call answers when it succeeds. -/
inductive Answer
  | done
  | node (id : NodeId)
  | listener (id : ListenerId)
  /-- Whether the listener was registered. -/
  | registered (was : Bool)
  deriving DecidableEq

/-- The same change with another value. -/
def Change.map {α β : Type} (f : α → β) (c : Change α) : Change β := ⟨f c.value, c.tree, c.notices⟩

/-- What a listener is told. -/
structure ListenerCall where
  listener : ListenerId
  node : NodeId
  /-- The content before, if there was one. -/
  old : Option Text
  new : Text
  deriving DecidableEq

/-- The calls of the listeners of a node that received a content. -/
def Notice.calls (n : Notice) : List ListenerCall :=
  n.listeners.map fun l => ⟨l, n.node, n.old, n.new⟩

/-- The calls of listeners in the course of a change. -/
def Change.calls {α : Type} (c : Change α) : List ListenerCall := c.notices.flatMap Notice.calls

namespace Tree

/-- What a call does. -/
def perform (t : Tree) : Operation → Except TreeError (Change Answer)
  | .create d => (t.create d).map (Change.map .node)
  | .setContent node text => (t.setContent node text).result.map (Change.map fun _ => .done)
  | .insert node index text => (t.insert node index text).map (Change.map .node)
  | .push node text => (t.push node text).map (Change.map .node)
  | .remove node index => (t.remove node index).map (Change.map fun _ => .done)
  | .alternative node index => (t.alternative node index).map (Change.map .node)
  | .alternativeOf node d => (t.alternativeOf node d).map (Change.map .node)
  | .optionalChild node => (t.optionalChild node).map (Change.map .node)
  | .addListener node => (t.addListener node).map (Change.map .listener)
  | .removeListener node l => (t.removeListener node l).map (Change.map .registered)

end Tree

/-- A tree in use. -/
structure Session where
  tree : Tree
  /-- The nodes that calls of `create` answered with, the first one first. -/
  created : List NodeId

namespace Session

/-- The node that a call creates without a parent. -/
def createdBy : Operation → Answer → Option NodeId
  | .create _, .node id => some id
  | _, _ => none

/-- The session after a call.  A call that fails leaves the tree as it is. -/
def step (s : Session) (op : Operation) : Session :=
  match s.tree.perform op with
  | .ok c => ⟨c.tree, s.created ++ (createdBy op c.value).toList⟩
  | .error _ => s

/-- The calls of listeners in the course of a call.  A call that fails calls none. -/
def calls (s : Session) (op : Operation) : List ListenerCall :=
  match s.tree.perform op with
  | .ok c => c.calls
  | .error _ => []

/-- The session after a run of calls from the empty tree. -/
def run (g : Grammar) (ops : List Operation) : Session := ops.foldl step ⟨.empty g, []⟩

end Session

end Tessera
