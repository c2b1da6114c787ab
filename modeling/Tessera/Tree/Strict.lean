/-
**Strict trees.**

The operations of a tree find nodes by the slots of their handles, parts of nodes by their numbers,
and the kind of a node in two places: in its parts and in the rule of its definition.  They are
total, so a slot that does not exist holds a default node, a part that does not exist is passed
over, and a split of another kind than the node leaves the parts of the node alone.

A *strict* operation is the same operation with a fault in each of these places: where a slot, a
part or a character boundary must be there and is not, where a split, a rule and the parts of a node
do not agree, and where a fuel runs out, it ends with nothing at all.

Main definitions:

* `Tessera.Strict.allocWith`, `release`, `reset` — strict changes of the slots;
* `Tessera.Strict.assign` — assigns a split to a node of the same kind;
* `Tessera.Strict.propagateUp` — carries a change to the ancestors;
* `Tessera.Strict.perform` — what a call does;
* `Tessera.Strict.children`, `current`, `outline` — strict questions about nodes;
* `Tessera.Session.strictRun` — a run of calls, from the empty tree.
-/

import Tessera.Search.Strict
import Tessera.Tree.Operation
import Tessera.Tree.Outline

set_option autoImplicit false

namespace Tessera

namespace Strict

/-! ### Slots -/

/-- What stands in the slot of a handle. -/
def node (t : Tree) (id : NodeId) : Option Node := t.slots[id.index]?

/-- Changes what stands in the slot of a handle. -/
def modify (t : Tree) (id : NodeId) (f : Node → Node) : Option Tree := do
  let _ ← node t id
  return t.modify id f

/-- Gives a node other parts. -/
def setBody (t : Tree) (id : NodeId) (body : Body) : Option Tree :=
  modify t id fun n => { n with body := body }

/-- Puts a node into the slot that was freed last, or into a new one, and gives its handle. -/
def occupy (t : Tree) (n : Node) : Option (NodeId × Tree) :=
  match t.free with
  | [] => some (t.occupy n)
  | i :: _ => if i < t.slots.size then some (t.occupy n) else none

/-- A difference, which must not be negative. -/
def minus (m n : Nat) : Option Nat := if n ≤ m then some (m - n) else none

/-! ### Parts -/

/-- The parts of a new node of a structural rule, before it has any. -/
def fresh : Rule → Option Body
  | .alias _ _ => none
  | .forward _ => none
  | .withDefault _ _ => none
  | rule => some (.fresh rule)

/-- The node of the current alternative.  There is an alternative of the current number. -/
def currentOf (alternatives : List (Option NodeId)) : Option Nat → Option (Option NodeId)
  | none => some none
  | some i => alternatives[i]?

/-- The parts that make up the content, in order. -/
def active : Body → Option (List NodeId)
  | .choice alternatives current => (currentOf alternatives current).map Option.toList
  | body => some body.active

/-- Whether the content depends on a part. -/
def dependsOn : Body → NodeId → Option Bool
  | .choice alternatives current, id => (currentOf alternatives current).map (· == some id)
  | body, id => some (body.dependsOn id)

/-! ### New nodes -/

/-- New nodes for several definitions, one after the other. -/
def allocEach (alloc : DefId → Tree → Option (NodeId × Tree)) :
    List DefId → Tree → Option (List NodeId × Tree)
  | [], t => some ([], t)
  | d :: ds, t => do
      let (id, t) ← alloc d t
      let (ids, t) ← allocEach alloc ds t
      return (id :: ids, t)

/-- A new node of a definition.  The children of a sequence come with it; `fill` is applied to every
new node once its children are there.  `fuel` bounds the nesting of sequences. -/
def allocWith (fill : DefId → NodeId → Tree → Option Tree) :
    Nat → Option NodeId → DefId → Tree → Option (NodeId × Tree)
  | 0, _, _, _ => none
  | fuel + 1, parent, d, t => do
      let rule ← shape t.grammar d
      let body ← fresh rule
      let (id, t) ← occupy t { t.freshNode d parent with body := body }
      match rule with
      | .sequence items =>
          let (children, t) ← allocEach (allocWith fill fuel (some id)) items t
          let t ← setBody t id (.sequence children)
          let t ← fill d id t
          return (id, t)
      | _ =>
          let t ← fill d id t
          return (id, t)

/-! ### Released nodes -/

/-- Frees a node and everything below it.  A stale handle frees nothing.  `fuel` bounds the depth. -/
def releaseNode : Nat → Tree → NodeId → Option Tree
  | 0, _, _ => none
  | fuel + 1, t, id => do
      let n ← node t id
      if n.generation = id.generation then
        n.body.owned.reverse.foldlM (releaseNode fuel) (t.vacate id)
      else return t

/-- Frees several nodes and everything below them, the last one first. -/
def release (t : Tree) (ids : List NodeId) : Option Tree :=
  ids.reverse.foldlM (releaseNode (t.slots.size + 1)) t

/-- Takes the contents of a node and of all nodes below it away.  `fuel` bounds the depth. -/
def resetNode : Nat → Tree → NodeId → Option Tree
  | 0, _, _ => none
  | fuel + 1, t, id => do
      let n ← node t id
      let t := t.clearContent id
      match n.body with
      | .leaf => return t
      | .sequence children => children.reverse.foldlM (resetNode fuel) t
      | .choice alternatives current =>
          let loser ← currentOf alternatives current
          loser.toList.foldlM (resetNode fuel) (t.setBody id (.choice alternatives none))
      | .optional child _ =>
          child.toList.foldlM (resetNode fuel) (t.setBody id (.optional child false))
      | .loop items => release (t.setBody id (.loop [])) items
      | .separated items separators =>
          release (t.setBody id (.separated [] [])) (items ++ separators)

/-- Takes the contents of a node and of all nodes below it away. -/
def reset (t : Tree) (id : NodeId) : Option Tree := resetNode (t.slots.size + 1) t id

/-! ### Assigning contents -/

/-- Changes the tree without a notice. -/
def onTree (e : Edit) (f : Tree → Option Tree) : Option Edit := do
  let t ← f e.tree
  return { e with tree := t }

/-- Gives a node the text of a range and takes notice. -/
def store (text : Text) (span : Span) (id : NodeId) (e : Edit) : Option Edit := do
  let _ ← node e.tree id
  let content ← slice? text span.start span.stop
  return e.store id content

/-- A new node below another, without a content. -/
def alloc (e : Edit) (parent : NodeId) (d : DefId) : Option (NodeId × Edit) := do
  let (id, t) ← allocWith (fun _ _ t => some t) e.tree.allocFuel (some parent) d e.tree
  return (id, { e with tree := t })

/-- The node that is there, or a new one. -/
def orAlloc (e : Edit) (existing : Option NodeId) (parent : NodeId) (d : DefId) :
    Option (NodeId × Edit) :=
  match existing with
  | some id => some (id, e)
  | none => alloc e parent d

/-- Clears the alternative that was current when another one takes its place. -/
def clearLoser (e : Edit) (alternatives : List (Option NodeId)) (current : Option Nat)
    (index : Nat) : Option Edit :=
  match current with
  | none => some e
  | some previous =>
      if previous = index then some e
      else do
        match ← alternatives[previous]? with
        | some loser => onTree e fun t => reset t loser
        | none => return e

/-- Clears the part of an optional that is not there any more. -/
def clearAbsent (e : Edit) (child : Option NodeId) : Option Edit :=
  match child with
  | some child => onTree e fun t => reset t child
  | none => some e

mutual

/-- Makes a node and everything below it follow a split of `text`.  The split is of the kind that
the rule of the node asks for, and so are the parts of the node; a sequence has as many parts as the
node has children, and a choice has an alternative of the chosen number. -/
def assign (text : Text) : Split → NodeId → Edit → Option Edit
  | .leaf span, id, e => do
      let n ← node e.tree id
      match ← shape e.tree.grammar n.definition, n.body with
      | .literal _, .leaf => store text span id e
      | .pattern _, .leaf => store text span id e
      | .empty, .leaf => store text span id e
      | _, _ => none
  | .sequence span parts, id, e => do
      let n ← node e.tree id
      match ← shape e.tree.grammar n.definition, n.body with
      | .sequence items, .sequence children =>
          if items.length = children.length then
            let e ← assignEach text parts children e
            store text span id e
          else none
      | _, _ => none
  | .choice span index inner, id, e => do
      let n ← node e.tree id
      match ← shape e.tree.grammar n.definition, n.body with
      | .choice defs, .choice alternatives current =>
          let e ← clearLoser e alternatives current index
          let existing ← alternatives[index]?
          let d ← defs[index]?
          let (child, e) ← orAlloc e existing id d
          let body : Body := .choice (alternatives.set index (some child)) (some index)
          let e ← onTree e fun t => setBody t id body
          let e ← assign text inner child e
          store text span id e
      | _, _ => none
  | .absent span, id, e => do
      let n ← node e.tree id
      match ← shape e.tree.grammar n.definition, n.body with
      | .optional _ _, .optional child _ =>
          let e ← clearAbsent e child
          let e ← onTree e fun t => setBody t id (.optional child false)
          store text span id e
      | _, _ => none
  | .present span inner, id, e => do
      let n ← node e.tree id
      match ← shape e.tree.grammar n.definition, n.body with
      | .optional item _, .optional child _ =>
          let (child, e) ← orAlloc e child id item
          let e ← onTree e fun t => setBody t id (.optional (some child) true)
          let e ← assign text inner child e
          store text span id e
      | _, _ => none
  | .loop span items, id, e => do
      let n ← node e.tree id
      match ← shape e.tree.grammar n.definition, n.body with
      | .loop item _, .loop old =>
          let e ← onTree e fun t => release t old
          let (ids, e) ← spawnEach text items item id e
          let e ← onTree e fun t => setBody t id (.loop ids)
          store text span id e
      | _, _ => none
  | .separated span items separators, id, e => do
      let n ← node e.tree id
      match ← shape e.tree.grammar n.definition, n.body with
      | .separated item separator _ _, .separated oldItems oldSeparators =>
          let e ← onTree e fun t => release t oldItems
          let e ← onTree e fun t => release t oldSeparators
          let (ids, e) ← spawnEach text items item id e
          let (ids', e) ← spawnEach text separators separator id e
          let e ← onTree e fun t => setBody t id (.separated ids ids')
          store text span id e
      | _, _ => none

/-- Makes nodes follow the parts of a split, one each. -/
def assignEach (text : Text) : List Split → List NodeId → Edit → Option Edit
  | [], [], e => some e
  | part :: parts, id :: ids, e => do
      let e ← assign text part id e
      assignEach text parts ids e
  | _, _, _ => none

/-- Makes a new node of the definition `d` for each part of a split. -/
def spawnEach (text : Text) :
    List Split → DefId → NodeId → Edit → Option (List NodeId × Edit)
  | [], _, _, e => some ([], e)
  | part :: parts, d, parent, e => do
      let (id, e) ← alloc e parent d
      let e ← assign text part id e
      let (ids, e) ← spawnEach text parts d parent e
      return (id :: ids, e)

end

/-- Makes a new node of the definition `d` follow a split of `text`. -/
def spawn (text : Text) (split : Split) (d : DefId) (parent : NodeId) (e : Edit) :
    Option (NodeId × Edit) := do
  let (id, e) ← alloc e parent d
  let e ← assign text split id e
  return (id, e)

/-- The content with which a fresh node of a definition begins. -/
def defaultContent (g : Grammar) (d : DefId) : Option (Option Text) := do
  let _ ← chain g d
  return g.defaultContent? d

/-- Gives a new node the default content of its definition, if there is one. -/
def fillDefault (d : DefId) (id : NodeId) (t : Tree) : Option Tree := do
  match ← defaultContent t.grammar d with
  | none => return t
  | some text =>
      match (← resolve t.grammar d text).result with
      | .ok split => return (← assign text split id ⟨t, []⟩).tree
      | .error _ => return t

/-- A new node of a definition.  It and the nodes that come with it hold their default contents. -/
def allocFilled (parent : Option NodeId) (d : DefId) (t : Tree) : Option (NodeId × Tree) :=
  allocWith fillDefault t.allocFuel parent d t

/-! ### Changes that travel up -/

/-- The contents of the active parts of a node, one after the other. -/
def composed (t : Tree) (id : NodeId) : Option Text := do
  let n ← node t id
  let parts ← active n.body
  let nodes ← parts.mapM (node t)
  return nodes.flatMap fun n => n.content.getD []

/-- Gives a node the contents of its active parts as its content. -/
def recompose (e : Edit) (id : NodeId) : Option Edit := do
  let content ← composed e.tree id
  return e.store id content

/-- The parent whose content depends on a node. -/
def activeParent (t : Tree) (id : NodeId) : Option (Option NodeId) := do
  let n ← node t id
  match n.parent with
  | none => return none
  | some p =>
      let above ← node t p
      let depends ← dependsOn above.body id
      return if depends then some p else none

/-- Carries a change of a node to the ancestors whose contents depend on it, up to the first that
holds none.  `fuel` bounds their number. -/
def propagate : Nat → NodeId → Edit → Option Edit
  | 0, _, _ => none
  | fuel + 1, id, e => do
      match ← activeParent e.tree id with
      | none => return e
      | some parent =>
          let n ← node e.tree parent
          if n.content.isNone then return e
          else
            let e ← recompose e parent
            propagate fuel parent e

/-- Carries a change of a node to all ancestors whose contents depend on it. -/
def propagateUp (id : NodeId) (e : Edit) : Option Edit := propagate (e.tree.slots.size + 1) id e

end Strict

/-! ### Calls -/

/-- A call that gives a value, reports what is wrong with it, or comes upon a fault. -/
abbrev StrictCall (α : Type) : Type := ExceptT TreeError Option α

namespace StrictCall

variable {α : Type}

/-- A step that cannot come upon a fault. -/
def check (x : Except TreeError α) : StrictCall α := ExceptT.mk (some x)

/-- A step that must not come upon a fault. -/
def must (x : Option α) : StrictCall α := ExceptT.mk (x.map .ok)

end StrictCall

namespace Strict

open StrictCall

/-- The split of a text. -/
def splitOf (g : Grammar) (d : DefId) (text : Text) : StrictCall Split := do
  let o ← must (resolve g d text)
  check o.split

/-- A new node of a definition. -/
def create (t : Tree) (d : DefId) : StrictCall (Change NodeId) :=
  if t.grammar.contains d then do
    let (id, t) ← must (allocFilled none d t)
    return ⟨id, t, []⟩
  else check (.error (.unknownDefinition d))

/-- Makes a node follow a new content. -/
def setContent (t : Tree) (id : NodeId) (text : Text) : StrictCall (Change Unit) := do
  let n ← check (t.get id)
  let split ← splitOf t.grammar n.definition text
  let e ← must (assign text split id ⟨t, []⟩)
  let e ← must (propagateUp id e)
  return e.result ()

/-- What a loop node repeats. -/
def loopRule (t : Tree) (id : NodeId) : StrictCall Tree.LoopRule := do
  let n ← check (t.get id)
  let _ ← must (shape t.grammar n.definition)
  check (t.loopRule id)

/-- The separator that comes with an item inserted into a loop of `len` items. -/
def newSeparator (t : Tree) (id : NodeId) (rule : Tree.LoopRule) (len : Nat) :
    StrictCall (Option (DefId × Text × Split)) :=
  match rule.separator with
  | some (d, explicit) =>
      if 0 < len then do
        let _ ← must (defaultContent t.grammar d)
        let text ← check (t.separatorText id d explicit)
        let split ← splitOf t.grammar d text
        return some (d, text, split)
      else return none
  | none => return none

/-- Makes the separator that comes with an item. -/
def spawnSeparator (id : NodeId) (e : Edit) :
    Option (DefId × Text × Split) → Option (Option NodeId × Edit)
  | some (d, text, split) => do
      let (s, e) ← spawn text split d id e
      return (some s, e)
  | none => some (none, e)

/-- Puts a new item and the separator that comes with it among the parts of a loop, no further than
behind the last one. -/
def insertParts (body : Body) (index : Nat) (item : NodeId) (separator : Option NodeId) :
    Option Body :=
  match body with
  | .loop items =>
      if index ≤ items.length then some (Tree.insertParts body index item separator) else none
  | .separated items _ =>
      if index ≤ items.length then some (Tree.insertParts body index item separator) else none
  | _ => none

/-- Inserts a new item with the given text before the item of number `index`. -/
def insert (t : Tree) (id : NodeId) (index : Nat) (text : Text) :
    StrictCall (Change NodeId) := do
  let rule ← loopRule t id
  let items ← check (t.items id)
  let len := items.length
  check (if len < index then .error (.indexOutOfBounds id index len) else .ok ())
  check (Tree.checkCount id rule.repetition (len + 1))
  let split ← splitOf t.grammar rule.item text
  let separator ← newSeparator t id rule len
  let (item, e) ← must (spawn text split rule.item id ⟨t, []⟩)
  let (separator, e) ← must (spawnSeparator id e separator)
  let n ← must (node e.tree id)
  let body ← must (insertParts n.body index item separator)
  let e ← must (onTree e fun t => setBody t id body)
  let e ← must (recompose e id)
  let e ← must (propagateUp id e)
  return e.result item

/-- Inserts a new item at the end. -/
def push (t : Tree) (id : NodeId) (text : Text) : StrictCall (Change NodeId) := do
  let items ← check (t.items id)
  insert t id items.length text

/-- Takes an item out of a loop, with the separator after it, or before it for the last item.  There
is an item of that number. -/
def removeParts (body : Body) (index : Nat) : Option (Body × List NodeId) :=
  match body with
  | .loop items => do
      let item ← items[index]?
      return (.loop (items.eraseIdx index), [item])
  | .separated items separators => do
      let item ← items[index]?
      if separators.isEmpty then
        return (.separated (items.eraseIdx index) separators, [item])
      else
        let last ← minus separators.length 1
        let separator ← separators[min index last]?
        return (.separated (items.eraseIdx index) (separators.eraseIdx (min index last)),
          [item, separator])
  | _ => none

/-- Removes the item of number `index`. -/
def remove (t : Tree) (id : NodeId) (index : Nat) : StrictCall (Change Unit) := do
  let rule ← loopRule t id
  let items ← check (t.items id)
  let len := items.length
  check (if len ≤ index then .error (.indexOutOfBounds id index len) else .ok ())
  let count ← must (minus len 1)
  check (Tree.checkCount id rule.repetition count)
  let n ← must (node t id)
  let (body, removed) ← must (removeParts n.body index)
  let t ← must (setBody t id body)
  let t ← must (release t removed)
  let e ← must (recompose ⟨t, []⟩ id)
  let e ← must (propagateUp id e)
  return e.result ()

/-- The definition of an alternative of a node. -/
def alternativeDef (t : Tree) (id : NodeId) (index : Nat) : Option DefId := do
  let n ← node t id
  match ← shape t.grammar n.definition with
  | .choice defs => defs[index]?
  | _ => none

/-- Keeps the new node of an alternative of a choice. -/
def keepAlternative (t : Tree) (id : NodeId) (index : Nat) (created : NodeId) : Option Tree := do
  let n ← node t id
  match n.body with
  | .choice alternatives current =>
      if index < alternatives.length then
        setBody t id (.choice (alternatives.set index (some created)) current)
      else none
  | _ => none

/-- The node of an alternative of a choice. -/
def alternative (t : Tree) (id : NodeId) (index : Nat) : StrictCall (Change NodeId) := do
  let n ← check (t.get id)
  match n.body with
  | .choice alternatives _ =>
      match alternatives[index]? with
      | none => check (.error (.indexOutOfBounds id index alternatives.length))
      | some (some existing) => return ⟨existing, t, []⟩
      | some none =>
          let d ← must (alternativeDef t id index)
          let (created, t) ← must (allocFilled (some id) d t)
          let t ← must (keepAlternative t id index created)
          return ⟨created, t, []⟩
  | _ => check (Tree.mismatch n id .choice)

/-- The definitions of the alternatives of a choice. -/
def alternativeDefs (t : Tree) (id : NodeId) : Option (List DefId) := do
  let n ← node t id
  match ← shape t.grammar n.definition with
  | .choice defs => return defs
  | _ => none

/-- The node of the first alternative of exactly the given definition. -/
def alternativeOf (t : Tree) (id : NodeId) (d : DefId) : StrictCall (Change NodeId) := do
  let n ← check (t.get id)
  match n.body with
  | .choice _ _ =>
      let defs ← must (alternativeDefs t id)
      match defs.findIdx? (· == d) with
      | some index => alternative t id index
      | none => check (.error (.notAChild id d))
  | _ => check (Tree.mismatch n id .choice)

/-- The definition of the part of an optional. -/
def optionalDef (t : Tree) (id : NodeId) : Option DefId := do
  let n ← node t id
  match ← shape t.grammar n.definition with
  | .optional item _ => return item
  | _ => none

/-- Keeps the new node of an optional part. -/
def keepOptional (t : Tree) (id : NodeId) (created : NodeId) : Option Tree := do
  let n ← node t id
  match n.body with
  | .optional _ present => setBody t id (.optional (some created) present)
  | _ => none

/-- The node of an optional part. -/
def optionalChild (t : Tree) (id : NodeId) : StrictCall (Change NodeId) := do
  let n ← check (t.get id)
  match n.body with
  | .optional (some existing) _ => return ⟨existing, t, []⟩
  | .optional none _ =>
      let d ← must (optionalDef t id)
      let (created, t) ← must (allocFilled (some id) d t)
      let t ← must (keepOptional t id created)
      return ⟨created, t, []⟩
  | _ => check (Tree.mismatch n id .optional)

/-- What a call does. -/
def perform (t : Tree) : Operation → StrictCall (Change Answer)
  | .create d => Change.map .node <$> create t d
  | .setContent node text => Change.map (fun _ => .done) <$> setContent t node text
  | .insert node index text => Change.map .node <$> insert t node index text
  | .push node text => Change.map .node <$> push t node text
  | .remove node index => Change.map (fun _ => .done) <$> remove t node index
  | .alternative node index => Change.map .node <$> alternative t node index
  | .alternativeOf node d => Change.map .node <$> alternativeOf t node d
  | .optionalChild node => Change.map .node <$> optionalChild t node
  | .addListener node => check ((t.addListener node).map (Change.map .listener))
  | .removeListener node l => check ((t.removeListener node l).map (Change.map .registered))

/-! ### Questions -/

/-- The number of live nodes. -/
def nodeCount (t : Tree) : Option Nat := minus t.slots.size t.free.length

/-- The children of a node that make up its content, in order. -/
def children (t : Tree) (id : NodeId) : StrictCall (List NodeId) := do
  let n ← check (t.get id)
  must (active n.body)

/-- Whether the content of the parent depends on a node. -/
def isActive (t : Tree) (id : NodeId) : StrictCall Bool := do
  let _ ← check (t.get id)
  let parent ← must (activeParent t id)
  return parent.isSome

/-- The pattern of the definition of a node. -/
def regex (t : Tree) (id : NodeId) : StrictCall Text := do
  let n ← check (t.get id)
  must (if n.definition < t.grammar.size then some (t.grammar.regex n.definition) else none)

/-- The first child of exactly the given definition. -/
def childOf (t : Tree) (id : NodeId) (d : DefId) : StrictCall NodeId := do
  let parts ← check (t.sequenceChildren id)
  let _ ← must (parts.mapM (node t))
  check (t.childOf id d)

/-- The field name of a definition. -/
def name (g : Grammar) (d : DefId) : Option (Option String) := do
  let _ ← chain g d
  return g.name? d

/-- The first child with the given field name. -/
def field (t : Tree) (id : NodeId) (name : String) : StrictCall NodeId := do
  let parts ← check (t.sequenceChildren id)
  let nodes ← must (parts.mapM (node t))
  let _ ← must (nodes.mapM fun n => Strict.name t.grammar n.definition)
  check (t.field id name)

/-- The node of the current alternative of a choice. -/
def current (t : Tree) (id : NodeId) : StrictCall (Option NodeId) := do
  let n ← check (t.get id)
  match n.body with
  | .choice alternatives index => must (currentOf alternatives index)
  | _ => check (Tree.mismatch n id .choice)

/-- The lines of a node and of the nodes that make up its content.  `fuel` bounds the depth. -/
def outlineLines (t : Tree) : Nat → Nat → NodeId → Option (List String)
  | 0, _, _ => some []
  | fuel + 1, depth, id => do
      let n ← node t id
      let _ ← name t.grammar n.definition
      let parts ← active n.body
      let below ← parts.mapM (outlineLines t fuel (depth + 1))
      return Tree.outlineLine t.grammar depth n :: below.flatten

/-- The outline of a node. -/
def outline (t : Tree) (id : NodeId) : StrictCall String := do
  let _ ← check (t.get id)
  let lines ← must (outlineLines t (t.slots.size + 1) 0 id)
  return String.join lines

end Strict

namespace Session

/-- The session after a call. -/
def strictStep (s : Session) (op : Operation) : Option Session :=
  (Strict.perform s.tree op).run.map fun
    | .ok c => ⟨c.tree, s.created ++ (createdBy op c.value).toList⟩
    | .error _ => s

/-- The session after a run of calls from the empty tree. -/
def strictRun (g : Grammar) (ops : List Operation) : Option Session :=
  ops.foldlM strictStep ⟨.empty g, []⟩

end Session

end Tessera
