/-
**What can be wrong with an operation on a tree.**

Main definitions:

* `Tessera.TreeError` — the faults;
* `Tessera.TreeError.kind` — whether the text, the call or a limit is at fault;
* `Tessera.TreeError.message` — what is said about a fault.
-/

import Tessera.Search.Resolve
import Tessera.Tree.Node

set_option autoImplicit false

namespace Tessera

/-- A fault of an operation on a tree. -/
inductive TreeError
  /-- The text does not fit the grammar. -/
  | incompatible (r : Rejection)
  /-- A loop would hold too many or too few items. -/
  | countOutOfBounds (node : NodeId) (count min : Nat) (max : Option Nat)
  /-- The search nests deeper than the recursion limit allows. -/
  | limitExceeded
  /-- The node holds no content. -/
  | noContent (node : NodeId)
  /-- The node is of another kind than the operation is for. -/
  | shapeMismatch (node : NodeId) (expected found : NodeShape)
  /-- There is no part of this number. -/
  | indexOutOfBounds (node : NodeId) (index len : Nat)
  /-- No child has this field name. -/
  | unknownField (node : NodeId) (name : String)
  /-- The node has no part of this definition. -/
  | notAChild (node : NodeId) (definition : DefId)
  /-- The grammar has no definition of this number. -/
  | unknownDefinition (definition : DefId)
  /-- A separator is needed and has no default text. -/
  | missingSeparator (node : NodeId)
  /-- The handle names no node of the tree. -/
  | unknownNode (node : NodeId)
  deriving DecidableEq

/-- What is at fault. -/
inductive ErrorKind
  /-- The text does not fit the grammar. -/
  | incompatibleContent
  /-- The call itself is wrong. -/
  | invalidArgument
  /-- A limit stopped the operation. -/
  | exhausted
  deriving DecidableEq, Repr

namespace TreeError

/-- The fault of an operation whose text has no split. -/
def ofSearch : SearchError → TreeError
  | .rejected r => incompatible r
  | .limitExceeded => limitExceeded

/-- What is at fault. -/
def kind : TreeError → ErrorKind
  | incompatible _ => .incompatibleContent
  | countOutOfBounds _ _ _ _ => .incompatibleContent
  | limitExceeded => .exhausted
  | _ => .invalidArgument

/-- What is said about a fault. -/
def message : TreeError → String
  | incompatible r => r.message
  | countOutOfBounds node count min max =>
      s!"{node.display} would hold {count} items, outside " ++
        Repetition.display ⟨min, max, .greedy⟩
  | limitExceeded => SearchError.limitExceeded.message
  | noContent node => s!"{node.display} has no content"
  | shapeMismatch node expected found =>
      s!"{node.display} is a {found.display} node, not a {expected.display} node"
  | indexOutOfBounds node index len =>
      s!"index {index} out of bounds for {node.display} of length {len}"
  | unknownField node name => s!"{node.display} has no field " ++ "\x60" ++ name ++ "\x60"
  | notAChild node definition =>
      s!"{definition.display} is not a child definition of {node.display}"
  | unknownDefinition definition => s!"{definition.display} does not belong to this grammar"
  | missingSeparator node => s!"{node.display} has no default separator"
  | unknownNode node => s!"{node.display} does not belong to this tree"

end TreeError

end Tessera
