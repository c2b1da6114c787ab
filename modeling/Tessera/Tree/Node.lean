/-
**Nodes.**

A node of a tree belongs to a definition, may hold a content, and knows its parent, its parts and
its listeners.  Nodes live in numbered slots that are used again after a node is released; a handle
names a slot together with its generation, which grows at every release, so that old handles name
nothing.

Main definitions:

* `Tessera.NodeId` — handles;
* `Tessera.Body` — the parts of a node;
* `Tessera.Body.active` — the parts that make up the content, in order;
* `Tessera.Body.dependsOn` — whether the content depends on a part;
* `Tessera.Body.owned` — all parts that a node holds;
* `Tessera.Node` — nodes.
-/

import Tessera.Grammar.Rule

set_option autoImplicit false

namespace Tessera

/-! ### Handles -/

/-- A slot and its generation.  Generations wrap around at `2 ^ 32`; the numbers of up to `2 ^ 32` slots
have 32 bits, and more are not provided for. -/
structure NodeId where
  index : Nat
  generation : UInt32
  deriving DecidableEq, Hashable, Repr, Inhabited

/-- A node is written as an at sign and its slot. -/
def NodeId.display (id : NodeId) : String := s!"@{id.index}"

/-- The number of a listener. -/
abbrev ListenerId := Nat

/-! ### Shapes -/

/-- What kind of node a definition gives. -/
inductive NodeShape
  | leaf
  | sequence
  | choice
  | optional
  | loop
  | separated
  deriving DecidableEq, Repr

/-- The name of a kind of node. -/
def NodeShape.display : NodeShape → String
  | .leaf => "leaf"
  | .sequence => "sequence"
  | .choice => "choice"
  | .optional => "optional"
  | .loop => "loop"
  | .separated => "separated"

/-! ### Bodies -/

/-- The parts of a node. -/
inductive Body
  | leaf
  | sequence (children : List NodeId)
  /-- The nodes of the alternatives that were used so far, and the number of the current one. -/
  | choice (alternatives : List (Option NodeId)) (current : Option Nat)
  /-- The node of the optional part, if it was used, and whether it is there. -/
  | optional (child : Option NodeId) (present : Bool)
  | loop (items : List NodeId)
  | separated (items separators : List NodeId)
  deriving DecidableEq, Repr, Inhabited

namespace Body

/-- The kind of a node with these parts. -/
def shape : Body → NodeShape
  | leaf => .leaf
  | sequence _ => .sequence
  | choice _ _ => .choice
  | optional _ _ => .optional
  | loop _ => .loop
  | separated _ _ => .separated

/-- The parts of a new node of a rule, before it has any. -/
def fresh : Rule → Body
  | .sequence _ => sequence []
  | .choice alternatives => choice (alternatives.map fun _ => none) none
  | .optional _ _ => optional none false
  | .loop _ _ => loop []
  | .separated _ _ _ _ => separated [] []
  | _ => leaf

/-- Items with the separators between them. -/
def interleave : List NodeId → List NodeId → List NodeId
  | [], _ => []
  | item :: items, [] => item :: interleave items []
  | item :: items, separator :: separators => item :: separator :: interleave items separators

/-- The node of the current alternative. -/
def currentOf (alternatives : List (Option NodeId)) (current : Option Nat) : Option NodeId :=
  current.bind fun i => alternatives[i]?.join

/-- The parts that make up the content, in order. -/
def active : Body → List NodeId
  | leaf => []
  | sequence children => children
  | choice alternatives current => (currentOf alternatives current).toList
  | optional child present => if present then child.toList else []
  | loop items => items
  | separated items separators => interleave items separators

/-- Whether the content depends on a part. -/
def dependsOn : Body → NodeId → Bool
  | leaf, _ => false
  | sequence children, id => children.contains id
  | choice alternatives current, id => current.any fun i => alternatives[i]?.join == some id
  | optional child present, id => present && child == some id
  | loop items, id => items.contains id
  | separated items separators, id => items.contains id || separators.contains id

/-- All parts that a node holds, whether they make up the content or not. -/
def owned : Body → List NodeId
  | leaf => []
  | sequence children => children
  | choice alternatives _ => alternatives.filterMap id
  | optional child _ => child.toList
  | loop items => items
  | separated items separators => items ++ separators

end Body

/-! ### Nodes -/

/-- A node, or what is left of one in a free slot. -/
structure Node where
  generation : UInt32
  definition : DefId
  /-- The text that was last accepted for the node; a new node has none. -/
  content : Option Text
  parent : Option NodeId
  body : Body
  listeners : List ListenerId
  deriving DecidableEq, Inhabited

end Tessera
