/-
**Editing trees.**

Every operation gives the changed tree together with the notices of the nodes that received a
content, or fails and changes nothing: a text is resolved before any node is touched.

Main definitions:

* `Tessera.Change` — the result of an operation;
* `Tessera.Tree.create` — a new node;
* `Tessera.Tree.setContent` — a new content for a node;
* `Tessera.Tree.insert`, `push`, `remove` — items of loops;
* `Tessera.Tree.alternative`, `optionalChild` — nodes that are made on first use;
* `Tessera.Tree.addListener`, `removeListener` — listeners.
-/

import Tessera.Tree.Assign
import Tessera.Tree.Reading

set_option autoImplicit false

namespace Tessera

/-- The result of an operation that succeeds: its value, the tree, and the notices in order. -/
structure Change (α : Type) where
  value : α
  tree : Tree
  notices : List Notice

/-- The result of an edit. -/
def Edit.result {α : Type} (e : Edit) (value : α) : Change α :=
  ⟨value, e.tree, e.notices.reverse⟩

/-- The split of a text or the fault of an operation with that text. -/
def Outcome.split (o : Outcome) : Except TreeError Split :=
  match o.result with
  | .ok split => .ok split
  | .error e => .error (.ofSearch e)

namespace Tree

/-! ### New nodes -/

/-- A new node of a definition.  It holds the default content of the definition, if there is one. -/
def create (t : Tree) (d : DefId) : Except TreeError (Change NodeId) :=
  if t.grammar.contains d then
    let (id, t) := t.allocFilled none d
    .ok ⟨id, t, []⟩
  else .error (.unknownDefinition d)

/-! ### Contents -/

/-- A change or a fault, and what happened while the text was resolved. -/
structure TracedChange where
  result : Except TreeError (Change Unit)
  events : List Event

/-- Makes a node follow a new content, and tells what happened on the way. -/
def setContent (t : Tree) (id : NodeId) (text : Text) : TracedChange :=
  match t.get id with
  | .error e => ⟨.error e, []⟩
  | .ok n =>
      let o := resolve t.grammar n.definition text
      match o.split with
      | .error e => ⟨.error e, o.events⟩
      | .ok split =>
          let e := Edit.propagateUp id (Edit.assign text split id ⟨t, []⟩)
          ⟨.ok (e.result ()), o.events⟩

/-! ### Items of loops -/

/-- The text of a separator that comes with an inserted item: that of the loop, or the default
content of the separator. -/
def separatorText (t : Tree) (id : NodeId) (d : DefId) (explicit : Option Text) :
    Except TreeError Text :=
  match explicit.or (t.grammar.defaultContent? d) with
  | some text => .ok text
  | none => .error (.missingSeparator id)

/-- The separator that comes with an item inserted into a loop of `len` items: its definition, its
text and the split of the text.  Without separators, and into an empty loop, none comes. -/
def newSeparator (t : Tree) (id : NodeId) (rule : LoopRule) (len : Nat) :
    Except TreeError (Option (DefId × Text × Split)) := do
  match rule.separator with
  | some (d, explicit) =>
      if 0 < len then
        let text ← t.separatorText id d explicit
        let split ← (resolve t.grammar d text).split
        return some (d, text, split)
      else return none
  | none => return none

/-- Puts a new item and the separator that comes with it among the parts of a loop.  The separator
stands after the item, or before it at the end. -/
def insertParts (body : Body) (index : Nat) (item : NodeId) (separator : Option NodeId) : Body :=
  match body with
  | .loop items => .loop (items.insertIdx index item)
  | .separated items separators =>
      .separated (items.insertIdx index item) <|
        match separator with
        | some s => separators.insertIdx (min index separators.length) s
        | none => separators
  | body => body

/-- The count of items after an operation must be admitted. -/
def checkCount (id : NodeId) (repetition : Repetition) (count : Nat) : Except TreeError Unit :=
  if repetition.admits count then .ok ()
  else .error (.countOutOfBounds id count repetition.min repetition.max)

/-- Inserts a new item with the given text before the item of number `index`. -/
def insert (t : Tree) (id : NodeId) (index : Nat) (text : Text) :
    Except TreeError (Change NodeId) := do
  let rule ← t.loopRule id
  let len := (← t.items id).length
  if len < index then throw (.indexOutOfBounds id index len)
  checkCount id rule.repetition (len + 1)
  let split ← (resolve t.grammar rule.item text).split
  let separator ← t.newSeparator id rule len
  let (item, e) := Edit.spawn text split rule.item id ⟨t, []⟩
  let (separator, e) := match separator with
    | some (d, text, split) =>
        let (s, e) := Edit.spawn text split d id e
        (some s, e)
    | none => (none, e)
  let e := e.onTree fun t => t.setBody id (insertParts (t.node id).body index item separator)
  return (Edit.propagateUp id (e.recompose id)).result item

/-- Inserts a new item at the end. -/
def push (t : Tree) (id : NodeId) (text : Text) : Except TreeError (Change NodeId) := do
  t.insert id (← t.items id).length text

/-- Takes an item out of a loop, with the separator after it, or before it for the last item.  Gives
the parts that stay and those that are taken out. -/
def removeParts (body : Body) (index : Nat) : Body × List NodeId :=
  match body with
  | .loop items => (.loop (items.eraseIdx index), items[index]?.toList)
  | .separated items separators =>
      let i := min index (separators.length - 1)
      (.separated (items.eraseIdx index) (separators.eraseIdx i),
        items[index]?.toList ++ separators[i]?.toList)
  | body => (body, [])

/-- Removes the item of number `index`. -/
def remove (t : Tree) (id : NodeId) (index : Nat) : Except TreeError (Change Unit) := do
  let rule ← t.loopRule id
  let len := (← t.items id).length
  if len ≤ index then throw (.indexOutOfBounds id index len)
  checkCount id rule.repetition (len - 1)
  let (body, removed) := removeParts (t.node id).body index
  let e : Edit := ⟨(t.setBody id body).release removed, []⟩
  return (Edit.propagateUp id (e.recompose id)).result ()

/-! ### Nodes that are made on first use -/

/-- The node of an alternative of a choice. -/
def alternative (t : Tree) (id : NodeId) (index : Nat) : Except TreeError (Change NodeId) := do
  let n ← t.get id
  match n.body with
  | .choice alternatives current =>
      match alternatives[index]? with
      | none => .error (.indexOutOfBounds id index alternatives.length)
      | some (some existing) => .ok ⟨existing, t, []⟩
      | some none =>
          let (created, t) := t.allocFilled (some id) (Edit.alternativeDef t id index)
          .ok ⟨created, t.setBody id (.choice (alternatives.set index (some created)) current), []⟩
  | _ => mismatch n id .choice

/-- The node of the first alternative of exactly the given definition. -/
def alternativeOf (t : Tree) (id : NodeId) (d : DefId) : Except TreeError (Change NodeId) := do
  let n ← t.get id
  match n.body with
  | .choice _ _ =>
      let alternatives := match t.shapeOf id with
        | .choice alternatives => alternatives
        | _ => []
      match alternatives.findIdx? (· == d) with
      | some index => t.alternative id index
      | none => .error (.notAChild id d)
  | _ => mismatch n id .choice

/-- The node of an optional part. -/
def optionalChild (t : Tree) (id : NodeId) : Except TreeError (Change NodeId) := do
  let n ← t.get id
  match n.body with
  | .optional (some existing) _ => .ok ⟨existing, t, []⟩
  | .optional none present =>
      let (created, t) := t.allocFilled (some id) (Edit.itemDef t id)
      .ok ⟨created, t.setBody id (.optional (some created) present), []⟩
  | _ => mismatch n id .optional

/-! ### Listeners -/

/-- Registers a listener on a node. -/
def addListener (t : Tree) (id : NodeId) : Except TreeError (Change ListenerId) := do
  let _ ← t.get id
  let l := t.nextListener
  let t := t.modify id fun n => { n with listeners := n.listeners ++ [l] }
  .ok ⟨l, { t with nextListener := l + 1 }, []⟩

/-- Removes a listener from a node, and tells whether it was registered there. -/
def removeListener (t : Tree) (id : NodeId) (l : ListenerId) : Except TreeError (Change Bool) := do
  let n ← t.get id
  .ok ⟨n.listeners.contains l,
    t.modify id fun n => { n with listeners := n.listeners.filter (· != l) }, []⟩

end Tree

end Tessera
