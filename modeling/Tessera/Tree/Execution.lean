/-
**Operations step by step.**

An operation checks its arguments, resolves its texts and changes the tree, one step after the other.
When a step fails the operation stops there, and what the steps before it have done stays done: no
step is ever taken back.  So it matters in which order the steps come.

The operations of `Tessera.Tree.Editing` say what comes out in the end; here they are written as the
steps that lead there.

Main definitions:

* `Tessera.Execution` — steps that change a tree, or stop where they are;
* `Tessera.Execution.check`, `Tessera.Execution.change` — a step that may fail, and a step that
  changes the tree;
* `Tessera.Tree.execute` — the steps of a call.
-/

import Tessera.Tree.Operation

set_option autoImplicit false

namespace Tessera

/-- Steps that change a tree and call its listeners, or stop with a fault where they are. -/
abbrev Execution (α : Type) : Type := EStateM TreeError Edit α

namespace Execution

variable {α : Type}

/-- A step that looks at the tree, and may fail. -/
def check (f : Tree → Except TreeError α) : Execution α := fun e =>
  match f e.tree with
  | .ok a => .ok a e
  | .error fault => .error fault e

/-- A step that changes the tree, calls listeners, and gives a value. -/
def change (f : Edit → α × Edit) : Execution α := fun e =>
  match f e with
  | (a, e) => .ok a e

/-- A step that changes the tree and calls listeners. -/
def edit (f : Edit → Edit) : Execution Unit := change fun e => ((), f e)

/-- A step that changes the tree without a call. -/
def onTree (f : Tree → α × Tree) : Execution α := change fun e =>
  match f e.tree with
  | (a, t) => (a, { e with tree := t })

/-- The split of a text. -/
def split (d : DefId) (text : Text) : Execution Split :=
  check fun t => (resolve t.grammar d text).split

end Execution

namespace Tree

open Execution

/-! ### Nodes -/

/-- The steps of making a node. -/
def createSteps (d : DefId) : Execution NodeId := do
  check fun t => if t.grammar.contains d then .ok () else .error (.unknownDefinition d)
  onTree (allocFilled none d)

/-- The steps of giving a node a content. -/
def setContentSteps (id : NodeId) (text : Text) : Execution Unit := do
  let n ← check (·.get id)
  let s ← split n.definition text
  edit (Edit.assign text s id)
  edit (Edit.propagateUp id)

/-! ### Items of loops -/

/-- The steps of finding the separator that comes with an item inserted into a loop of `len` items.
-/
def newSeparatorSteps (id : NodeId) (rule : LoopRule) (len : Nat) :
    Execution (Option (DefId × Text × Split)) :=
  match rule.separator with
  | some (d, explicit) =>
      if 0 < len then do
        let text ← check (·.separatorText id d explicit)
        let s ← split d text
        return some (d, text, s)
      else return none
  | none => return none

/-- The step of making the separator that was found. -/
def spawnSeparator (id : NodeId) :
    Option (DefId × Text × Split) → Execution (Option NodeId)
  | some (d, text, s) => change fun e =>
      match Edit.spawn text s d id e with
      | (separator, e) => (some separator, e)
  | none => return none

/-- The steps after the parts of a loop have changed. -/
def finishLoop (id : NodeId) : Execution Unit := do
  edit (·.recompose id)
  edit (Edit.propagateUp id)

/-- The steps of inserting an item. -/
def insertSteps (id : NodeId) (index : Nat) (text : Text) : Execution NodeId := do
  let rule ← check (·.loopRule id)
  let items ← check (·.items id)
  let len := items.length
  check fun _ => if len < index then .error (.indexOutOfBounds id index len) else .ok ()
  check fun _ => checkCount id rule.repetition (len + 1)
  let s ← split rule.item text
  let separator ← newSeparatorSteps id rule len
  let item ← change (Edit.spawn text s rule.item id)
  let separator ← spawnSeparator id separator
  onTree fun t => ((), t.setBody id (insertParts (t.node id).body index item separator))
  finishLoop id
  return item

/-- The steps of inserting an item at the end. -/
def pushSteps (id : NodeId) (text : Text) : Execution NodeId := do
  let items ← check (·.items id)
  insertSteps id items.length text

/-- The steps of removing an item. -/
def removeSteps (id : NodeId) (index : Nat) : Execution Unit := do
  let rule ← check (·.loopRule id)
  let items ← check (·.items id)
  let len := items.length
  check fun _ => if len ≤ index then .error (.indexOutOfBounds id index len) else .ok ()
  check fun _ => checkCount id rule.repetition (len - 1)
  let removed ← onTree fun t =>
    match removeParts (t.node id).body index with
    | (body, removed) => (removed, t.setBody id body)
  onTree fun t => ((), t.release removed)
  finishLoop id

/-! ### Nodes that are made on first use -/

/-- The steps of finding the node of an alternative, or making it. -/
def alternativeSteps (id : NodeId) (index : Nat) : Execution NodeId := do
  let n ← check (·.get id)
  match n.body with
  | .choice alternatives current =>
      match alternatives[index]? with
      | none => throw (.indexOutOfBounds id index alternatives.length)
      | some (some existing) => return existing
      | some none =>
          let created ← onTree fun t => t.allocFilled (some id) (Edit.alternativeDef t id index)
          onTree fun t =>
            ((), t.setBody id (.choice (alternatives.set index (some created)) current))
          return created
  | _ => check fun _ => mismatch n id .choice

/-- The steps of finding the node of the first alternative of a definition, or making it. -/
def alternativeOfSteps (id : NodeId) (d : DefId) : Execution NodeId := do
  let n ← check (·.get id)
  match n.body with
  | .choice _ _ =>
      let index ← check fun t =>
        let alternatives := match t.shapeOf id with
          | .choice alternatives => alternatives
          | _ => []
        match alternatives.findIdx? (· == d) with
        | some index => .ok index
        | none => .error (.notAChild id d)
      alternativeSteps id index
  | _ => check fun _ => mismatch n id .choice

/-- The steps of finding the node of an optional part, or making it. -/
def optionalChildSteps (id : NodeId) : Execution NodeId := do
  let n ← check (·.get id)
  match n.body with
  | .optional (some existing) _ => return existing
  | .optional none present =>
      let created ← onTree fun t => t.allocFilled (some id) (Edit.itemDef t id)
      onTree fun t => ((), t.setBody id (.optional (some created) present))
      return created
  | _ => check fun _ => mismatch n id .optional

/-! ### Listeners -/

/-- The steps of registering a listener: its number is taken before the node is looked up, and counted
afterwards. -/
def addListenerSteps (id : NodeId) : Execution ListenerId := do
  let l ← check fun t => .ok t.nextListener
  let _ ← check (·.get id)
  onTree fun t => ((), t.modify id fun n => { n with listeners := n.listeners ++ [l] })
  onTree fun t => ((), { t with nextListener := l + 1 })
  return l

/-- The steps of removing a listener. -/
def removeListenerSteps (id : NodeId) (l : ListenerId) : Execution Bool := do
  let n ← check (·.get id)
  onTree fun t => ((), t.modify id fun n => { n with listeners := n.listeners.filter (· != l) })
  return n.listeners.contains l

/-! ### Calls -/

/-- The steps of a call. -/
def execute : Operation → Execution Answer
  | .create d => .node <$> createSteps d
  | .setContent node text => (fun _ => .done) <$> setContentSteps node text
  | .insert node index text => .node <$> insertSteps node index text
  | .push node text => .node <$> pushSteps node text
  | .remove node index => (fun _ => .done) <$> removeSteps node index
  | .alternative node index => .node <$> alternativeSteps node index
  | .alternativeOf node d => .node <$> alternativeOfSteps node d
  | .optionalChild node => .node <$> optionalChildSteps node
  | .addListener node => .listener <$> addListenerSteps node
  | .removeListener node l => .registered <$> removeListenerSteps node l

end Tree

end Tessera
