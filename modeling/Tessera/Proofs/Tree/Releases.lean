/-
**Released handles.**

A tree keeps no record of the nodes that were released.  The record is written down here, beside
each operation that may release nodes: the handles of the nodes that it releases, in the order in
which that happens.  The generation of a slot counts, modulo `2 ^ 32`, how often the slot occurs in
the record, and each handle stands in the record with the generation that its slot had at that moment.

Main definitions:

* `Tessera.timesReleased` — how often a slot occurs in a record;
* `Tessera.Tree.releaseLog`, `resetLog`, `Tessera.Edit.assignLog`, `Tessera.Tree.allocFilledLog`,
  `performLog` — the records of the operations;
* `Tessera.Session.released` — the record of a run of calls;
* `Tessera.Tree.Logged` — a tree came from another one, and this is the record.

Main results:

* `Tessera.Tree.Logged.trans` — one record after another;
* `Tessera.Tree.Logged.mem_of_not_live` — **a handle that names a node no more is in the record**;
* `Tessera.Tree.Logged.lookup?_eq_none` — **a handle in the record names nothing afterwards**,
  unless its slot was released `2 ^ 32` times;
* `Tessera.Tree.perform_logged`, `Tessera.Session.run_logged` — the records of calls and of runs.
-/

import Tessera.Proofs.Tree.Sessions

set_option autoImplicit false

namespace Tessera

open Tessera.Tree

variable {t t' t'' : Tree} {id n : NodeId} {i : Nat} {log log' : List NodeId} {text : Text}

/-! ### Records -/

/-- How often a slot occurs among the slots of handles. -/
def timesReleased (log : List NodeId) (i : Nat) : Nat := log.countP fun id => id.index == i

@[simp] theorem timesReleased_nil : timesReleased [] i = 0 := rfl

theorem timesReleased_cons :
    timesReleased (id :: log) i = timesReleased log i + if id.index = i then 1 else 0 := by
  simp [timesReleased, List.countP_cons]

theorem timesReleased_append :
    timesReleased (log ++ log') i = timesReleased log i + timesReleased log' i :=
  List.countP_append

/-- A slot that occurs has a first occurrence. -/
theorem exists_first_of_timesReleased (h : timesReleased log i ≠ 0) :
    ∃ l id r, log = l ++ id :: r ∧ id.index = i ∧ timesReleased l i = 0 := by
  cases hfind : log.find? fun id => id.index == i with
  | none => exact absurd (List.countP_eq_zero.2 (List.find?_eq_none.1 hfind)) h
  | some id =>
  obtain ⟨hid, l, r, rfl, hl⟩ := List.find?_eq_some_iff_append.1 hfind
  have hnone : timesReleased l i = 0 := List.countP_eq_zero.2 fun x hx => by simpa using hl x hx
  exact ⟨l, id, r, rfl, by simpa using hid, hnone⟩

/-- The record of a step for each element of a list, one after the other. -/
def logEach {σ α : Type} (f : σ → α → σ) (log : σ → α → List NodeId) : σ → List α → List NodeId
  | _, [] => []
  | s, a :: as => log s a ++ logEach f log (f s a) as

theorem logEach_append {σ α : Type} (f : σ → α → σ) (log : σ → α → List NodeId) (s : σ)
    (as bs : List α) :
    logEach f log s (as ++ bs) = logEach f log s as ++ logEach f log (as.foldl f s) bs := by
  induction as generalizing s with
  | nil => rfl
  | cons a as ih =>
      rw [List.cons_append, logEach, ih, ← List.append_assoc, ← logEach, List.foldl_cons]

theorem logEach_eq_nil {σ α : Type} {f : σ → α → σ} {log : σ → α → List NodeId}
    (h : ∀ s a, log s a = []) (as : List α) (s : σ) : logEach f log s as = [] := by
  induction as generalizing s with
  | nil => rfl
  | cons a as ih => rw [logEach, h, ih, List.append_nil]

namespace Tree

/-- The record of `Tree.releaseNode`: the node first, and then its parts from the last to the
first. -/
def releaseNodeLog : Nat → Tree → NodeId → List NodeId
  | 0, _, _ => []
  | fuel + 1, t, id =>
      match t.lookup? id with
      | none => []
      | some n =>
          id :: logEach (releaseNode fuel) (releaseNodeLog fuel) (t.vacate id) n.body.owned.reverse

/-- The record of `Tree.release`. -/
def releaseLog (t : Tree) (ids : List NodeId) : List NodeId :=
  logEach (releaseNode (t.slots.size + 1)) (releaseNodeLog (t.slots.size + 1)) t ids.reverse

/-- The record of `Tree.resetNode`: the elements of loops. -/
def resetNodeLog : Nat → Tree → NodeId → List NodeId
  | 0, _, _ => []
  | fuel + 1, t, id =>
      let body := (t.node id).body
      let t := t.clearContent id
      match body with
      | .leaf => []
      | .sequence children => logEach (resetNode fuel) (resetNodeLog fuel) t children.reverse
      | .choice alternatives current =>
          logEach (resetNode fuel) (resetNodeLog fuel)
            (t.setBody id (.choice alternatives none)) (Body.currentOf alternatives current).toList
      | .optional child _ =>
          logEach (resetNode fuel) (resetNodeLog fuel) (t.setBody id (.optional child false))
            child.toList
      | .loop items => (t.setBody id (.loop [])).releaseLog items
      | .separated items separators =>
          (t.setBody id (.separated [] [])).releaseLog (items ++ separators)

/-- The record of `Tree.reset`. -/
def resetLog (t : Tree) (id : NodeId) : List NodeId := resetNodeLog (t.slots.size + 1) t id

end Tree

namespace Edit

/-- The record of `Edit.clearLoser`. -/
def clearLoserLog (e : Edit) (alternatives : List (Option NodeId)) (current : Option Nat)
    (index : Nat) : List NodeId :=
  match current with
  | none => []
  | some previous =>
      if previous = index then []
      else
        match alternatives[previous]?.join with
        | some loser => e.tree.resetLog loser
        | none => []

mutual

/-- The record of `Edit.assign`: the elements that loops had before, and what is cleared. -/
def assignLog (text : Text) : Split → NodeId → Edit → List NodeId
  | .leaf _, _, _ => []
  | .sequence _ parts, id, e =>
      match (e.tree.node id).body with
      | .sequence children => assignEachLog text parts children e
      | _ => []
  | .choice _ index inner, id, e =>
      match (e.tree.node id).body with
      | .choice alternatives current =>
          let log := e.clearLoserLog alternatives current index
          let e := e.clearLoser alternatives current index
          let d := alternativeDef e.tree id index
          let (child, e) := e.orAlloc alternatives[index]?.join id d
          let body : Body := .choice (alternatives.set index (some child)) (some index)
          log ++ assignLog text inner child (e.onTree fun t => t.setBody id body)
      | _ => []
  | .absent _, id, e =>
      match (e.tree.node id).body with
      | .optional (some child) _ => e.tree.resetLog child
      | _ => []
  | .present _ inner, id, e =>
      match (e.tree.node id).body with
      | .optional child _ =>
          let (child, e) := e.orAlloc child id (itemDef e.tree id)
          assignLog text inner child (e.onTree fun t => t.setBody id (.optional (some child) true))
      | _ => []
  | .loop _ items, id, e =>
      match (e.tree.node id).body with
      | .loop old =>
          let log := e.tree.releaseLog old
          let e := e.onTree fun t => t.release old
          log ++ spawnEachLog text items (itemDef e.tree id) id e
      | _ => []
  | .separated _ items separators, id, e =>
      match (e.tree.node id).body with
      | .separated oldItems oldSeparators =>
          let log := e.tree.releaseLog oldItems ++ (e.tree.release oldItems).releaseLog oldSeparators
          let e := e.onTree fun t => (t.release oldItems).release oldSeparators
          let log := log ++ spawnEachLog text items (itemDef e.tree id) id e
          let (_, e) := spawnEach text items (itemDef e.tree id) id e
          log ++ spawnEachLog text separators (separatorDef e.tree id) id e
      | _ => []

/-- The record of `Edit.assignEach`. -/
def assignEachLog (text : Text) : List Split → List NodeId → Edit → List NodeId
  | part :: parts, id :: ids, e =>
      assignLog text part id e ++ assignEachLog text parts ids (assign text part id e)
  | _, _, _ => []

/-- The record of `Edit.spawnEach`. -/
def spawnEachLog (text : Text) : List Split → DefId → NodeId → Edit → List NodeId
  | [], _, _, _ => []
  | part :: parts, d, parent, e =>
      let (id, e) := e.alloc parent d
      assignLog text part id e ++ spawnEachLog text parts d parent (assign text part id e)

end

/-- The record of `Edit.spawn`. -/
def spawnLog (text : Text) (split : Split) (d : DefId) (parent : NodeId) (e : Edit) : List NodeId :=
  let (id, e) := e.alloc parent d
  assignLog text split id e

/-- The record of `Edit.spawnSeparator`. -/
def spawnSeparatorLog (separator : Option (DefId × Text × Split)) (parent : NodeId) (e : Edit) :
    List NodeId :=
  match separator with
  | some (d, text, split) => spawnLog text split d parent e
  | none => []

end Edit

namespace Tree

/-- The record of `Tree.fillDefault`. -/
def fillDefaultLog (d : DefId) (id : NodeId) (t : Tree) : List NodeId :=
  match t.grammar.defaultContent? d with
  | none => []
  | some text =>
      match (resolve t.grammar d text).result with
      | .ok split => Edit.assignLog text split id ⟨t, []⟩
      | .error _ => []

/-- The record of `Tree.allocWith`, where `log` is that of `fill`. -/
def allocWithLog (fill : DefId → NodeId → Tree → Tree) (log : DefId → NodeId → Tree → List NodeId) :
    Nat → Option NodeId → DefId → Tree → List NodeId
  | 0, _, _, _ => []
  | fuel + 1, parent, d, t =>
      let (id, t) := t.occupy (t.freshNode d parent)
      match t.grammar.shape d with
      | .sequence items =>
          let (children, t') := allocEach (allocWith fill fuel (some id)) items t
          logEach (fun t d => (allocWith fill fuel (some id) d t).2)
              (fun t d => allocWithLog fill log fuel (some id) d t) t items ++
            log d id (t'.setBody id (.sequence children))
      | _ => log d id t

/-- The record of `Tree.allocFilled`. -/
def allocFilledLog (parent : Option NodeId) (d : DefId) (t : Tree) : List NodeId :=
  allocWithLog fillDefault fillDefaultLog t.allocFuel parent d t

/-- The record of an insertion that succeeds. -/
def insertLog (t : Tree) (id : NodeId) (text : Text) : List NodeId :=
  match t.loopRule id, t.items id with
  | .ok rule, .ok items =>
      match (resolve t.grammar rule.item text).result, t.newSeparator id rule items.length with
      | .ok split, .ok separator =>
          let log := Edit.spawnLog text split rule.item id ⟨t, []⟩
          let (_, e) := Edit.spawn text split rule.item id ⟨t, []⟩
          log ++ Edit.spawnSeparatorLog separator id e
      | _, _ => []
  | _, _ => []

/-- The record of a call for the node of an alternative. -/
def alternativeLog (t : Tree) (id : NodeId) (index : Nat) : List NodeId :=
  match (t.node id).body with
  | .choice alternatives _ =>
      match alternatives[index]? with
      | some none => t.allocFilledLog (some id) (Edit.alternativeDef t id index)
      | _ => []
  | _ => []

/-- The record of a call that succeeds. -/
def performLog (t : Tree) : Operation → List NodeId
  | .create d => t.allocFilledLog none d
  | .setContent node text =>
      match (resolve t.grammar (t.node node).definition text).result with
      | .ok split => Edit.assignLog text split node ⟨t, []⟩
      | .error _ => []
  | .insert node _ text => t.insertLog node text
  | .push node text => t.insertLog node text
  | .remove node index =>
      let (body, removed) := removeParts (t.node node).body index
      (t.setBody node body).releaseLog removed
  | .alternative node index => t.alternativeLog node index
  | .alternativeOf node d =>
      match t.shapeOf node with
      | .choice alternatives =>
          match alternatives.findIdx? (· == d) with
          | some index => t.alternativeLog node index
          | none => []
      | _ => []
  | .optionalChild node =>
      match (t.node node).body with
      | .optional none _ => t.allocFilledLog (some node) (Edit.itemDef t node)
      | _ => []
  | .addListener _ => []
  | .removeListener _ _ => []

end Tree

namespace Session

/-- The record of a call.  A call that fails releases nothing. -/
def stepLog (s : Session) (op : Operation) : List NodeId :=
  match s.tree.perform op with
  | .ok _ => s.tree.performLog op
  | .error _ => []

/-- The handles of all nodes that are released in a run of calls from the empty tree, in order. -/
def released (g : Grammar) (ops : List Operation) : List NodeId :=
  logEach step stepLog ⟨.empty g, []⟩ ops

theorem released_append (g : Grammar) (ops ops' : List Operation) :
    released g (ops ++ ops') = released g ops ++ logEach step stepLog (run g ops) ops' :=
  logEach_append step stepLog _ ops ops'

end Session

/-! ### What a record says -/

namespace Tree

/-- The tree `t'` came from `t`, and the nodes with the handles `log` were released on the way, in
this order. -/
structure Logged (t : Tree) (log : List NodeId) (t' : Tree) : Prop where
  size_le : t.slots.size ≤ t'.slots.size
  /-- The generation of a slot counts its releases. -/
  generation : ∀ i, (t'.slot i).generation =
    (t.slot i).generation + UInt32.ofNat (timesReleased log i)
  /-- A handle is released with the generation that its slot has then. -/
  stamped : ∀ l id r, log = l ++ id :: r → id.generation =
    (t.slot id.index).generation + UInt32.ofNat (timesReleased l id.index)
  /-- A slot is free only after a release. -/
  freed : ∀ i, i ∉ t.free → i ∈ t'.free → timesReleased log i ≠ 0
  /-- There is a slot for every released handle. -/
  within : ∀ id ∈ log, id.index < t'.slots.size

namespace Logged

/-- One record after another. -/
theorem trans (h : t.Logged log t') (h' : t'.Logged log' t'') : t.Logged (log ++ log') t'' where
  size_le := Nat.le_trans h.size_le h'.size_le
  generation i := by
    rw [h'.generation, h.generation, timesReleased_append, UInt32.ofNat_add, UInt32.add_assoc]
  stamped l id r heq := by
    rcases List.append_eq_append_iff.1 heq with ⟨m, rfl, hm⟩ | ⟨m, hm, hr⟩
    · rw [h'.stamped m id r hm, h.generation, timesReleased_append, UInt32.ofNat_add,
        UInt32.add_assoc]
    · cases m with
      | nil =>
          obtain rfl : log = l := by simpa using hm
          rw [h'.stamped [] id r hr.symm, h.generation]
          simp
      | cons x m =>
          obtain ⟨rfl, -⟩ := List.cons.inj hr
          exact h.stamped l id m hm
  freed i hfree hin := by
    rw [timesReleased_append]
    by_cases hfree' : i ∈ t'.free
    · have := h.freed i hfree hfree'
      omega
    · have := h'.freed i hfree' hin
      omega
  within id hid := by
    rcases List.mem_append.1 hid with hid | hid
    · exact Nat.lt_of_lt_of_le (h.within id hid) h'.size_le
    · exact h'.within id hid

/-- Nothing is released when the generations stay. -/
theorem of_generation (hsize : t.slots.size ≤ t'.slots.size)
    (hgeneration : ∀ i, (t'.slot i).generation = (t.slot i).generation)
    (hfree : ∀ i ∈ t'.free, i ∈ t.free) : t.Logged [] t' where
  size_le := hsize
  generation i := by simp [hgeneration]
  stamped l id r heq := by simp at heq
  freed i hnot hin := absurd (hfree i hin) hnot
  within id hid := absurd hid List.not_mem_nil

theorem refl (t : Tree) : t.Logged [] t := .of_generation (Nat.le_refl _) (fun _ => rfl) fun _ => id

/-- A step that releases nothing, after others. -/
theorem snoc (h : t.Logged log t') (h' : t'.Logged [] t'') : t.Logged log t'' := by
  simpa using h.trans h'

/-- A step that releases nothing, before others. -/
theorem cons (h : t.Logged [] t') (h' : t'.Logged log t'') : t.Logged log t'' := by
  simpa using h.trans h'

/-- One step after another for the elements of a list. -/
theorem foldl {α : Type} {f : Tree → α → Tree} {log : Tree → α → List NodeId}
    (h : ∀ (t : Tree) (a : α), t.Logged (log t a) (f t a)) (as : List α) (t : Tree) :
    t.Logged (logEach f log t as) (as.foldl f t) := by
  induction as generalizing t with
  | nil => exact .refl t
  | cons a as ih => exact (h t a).trans (ih (f t a))

/-- The first release from the slot of a live node is that of the node. -/
theorem mem_of_timesReleased (h : t.Logged log t') (hlive : t.Live id)
    (htimes : timesReleased log id.index ≠ 0) : id ∈ log := by
  obtain ⟨l, x, r, rfl, hx, hl⟩ := exists_first_of_timesReleased htimes
  have hgeneration := h.stamped l x r rfl
  rw [hx, hl, ← node_eq_slot, hlive.generation] at hgeneration
  obtain rfl : x = id := by
    cases x
    cases id
    simp_all
  simp

/-- **A handle that names a node no more is in the record.** -/
theorem mem_of_not_live (h : t.Logged log t') (hlive : t.Live id) (hgone : ¬ t'.Live id) :
    id ∈ log := by
  refine h.mem_of_timesReleased hlive fun hnone => ?_
  refine hgone ⟨Nat.lt_of_lt_of_le hlive.size h.size_le, fun hfree => ?_, ?_⟩
  · exact h.freed id.index hlive.occupied hfree hnone
  · rw [node_eq_slot, h.generation, hnone, ← node_eq_slot, hlive.generation]
    simp

/-- **A handle in the record names nothing afterwards**, unless its slot was released `2 ^ 32`
times. -/
theorem lookup?_eq_none (h : t.Logged log t') (hfew : timesReleased log id.index < 2 ^ 32)
    (hid : id ∈ log) : t'.lookup? id = none := by
  rw [Option.eq_none_iff_forall_ne_some]
  intro node hnode
  obtain ⟨-, hgeneration, -⟩ := lookup?_eq_some.1 hnode
  obtain ⟨l, r, rfl⟩ := List.append_of_mem hid
  rw [timesReleased_append, timesReleased_cons, if_pos rfl] at hfew
  rw [node_eq_slot, h.generation, h.stamped l id r rfl, timesReleased_append, timesReleased_cons,
    if_pos rfl, UInt32.add_right_inj] at hgeneration
  have htimes := congrArg UInt32.toNat hgeneration
  have hfew' := Nat.lt_of_le_of_lt (Nat.le_add_right _ _) hfew
  rw [UInt32.toNat_ofNat_of_lt' hfew, UInt32.toNat_ofNat_of_lt' hfew'] at htimes
  omega

end Logged

/-! ### Single nodes -/

/-- A change of a node that keeps its generation. -/
theorem modify_logged {f : Node → Node} (hf : (f (t.node id)).generation = (t.node id).generation) :
    t.Logged [] (t.modify id f) := by
  refine .of_generation (Nat.le_of_eq (size_modify t id f).symm) (fun i => ?_) fun _ hi => hi
  by_cases hi : i = id.index
  · subst hi
    by_cases hsize : id.index < t.slots.size
    · rw [slot_modify_self hsize]
      exact hf
    · rw [slot_of_size_le (by simpa using hsize), slot_of_size_le (by omega)]
  · rw [slot_modify_of_ne hi]

theorem setBody_logged (t : Tree) (id : NodeId) (body : Body) : t.Logged [] (t.setBody id body) :=
  modify_logged rfl

theorem clearContent_logged (t : Tree) (id : NodeId) : t.Logged [] (t.clearContent id) :=
  modify_logged rfl

/-- A node that is put into a slot takes over the generation of the slot. -/
theorem occupy_logged (t : Tree) (n : Node) : t.Logged [] (t.occupy n).2 := by
  cases hfree : t.free with
  | nil =>
      have heq : (t.occupy n).2 = { t with slots := t.slots.push { n with generation := 0 } } := by
        simp [occupy, hfree]
      rw [heq]
      refine .of_generation (by simp) (fun i => ?_) fun _ hi => hi
      by_cases hi : i = t.slots.size
      · rw [hi, slot_of_size_le (Nat.le_refl _)]
        simp [slot, Array.getD_eq_getD_getElem?]
        rfl
      · simp [slot, Array.getD_eq_getD_getElem?, Array.getElem?_push, hi]
  | cons j free =>
      have heq : (t.occupy n).2 =
          { t.modify ⟨j, 0⟩ (fun _ => { n with generation := (t.slot j).generation }) with
            free := free } := by
        simp [occupy, hfree, slot, modify]
      have hmodify : t.Logged [] (t.modify ⟨j, 0⟩ fun _ =>
          { n with generation := (t.slot j).generation }) := modify_logged rfl
      rw [heq]
      refine hmodify.snoc (.of_generation (Nat.le_refl _) (fun _ => rfl) fun i hi => ?_)
      exact hfree ▸ List.mem_cons_of_mem j hi

/-- A node is released once when its slot is given back. -/
theorem vacate_logged {node : Node} (h : t.lookup? id = some node) :
    t.Logged [id] (t.vacate id) := by
  obtain ⟨hsize, hgeneration, -⟩ := lookup?_eq_some.1 h
  refine ⟨by simp [vacate], fun i => ?_, fun l x r heq => ?_, fun i hnot hin => ?_, fun x hx => ?_⟩
  · rw [timesReleased_cons]
    by_cases hi : i = id.index
    · subst hi
      rw [slot_vacate_self hsize]
      simp
    · rw [slot_vacate_of_ne hi, if_neg (Ne.symm hi)]
      simp
  · obtain ⟨rfl, heq⟩ | ⟨_, rfl, heq⟩ := List.cons_eq_append_iff.1 heq
    · obtain ⟨rfl, -⟩ := List.cons.inj heq
      simpa [node_eq_slot] using hgeneration.symm
    · simp at heq
  · rw [timesReleased_cons, if_pos ((List.mem_cons.1 hin).resolve_right hnot).symm]
    omega
  · rw [List.mem_singleton.1 hx]
    simpa [vacate] using hsize

/-! ### Released and cleared branches -/

theorem releaseNode_logged (fuel : Nat) (t : Tree) (id : NodeId) :
    t.Logged (releaseNodeLog fuel t id) (releaseNode fuel t id) := by
  induction fuel generalizing t id with
  | zero => exact .refl t
  | succ fuel ih =>
      rw [releaseNodeLog, releaseNode]
      cases hlookup : t.lookup? id with
      | none => exact .refl t
      | some n => exact (vacate_logged hlookup).trans (.foldl ih _ _)

theorem release_logged (t : Tree) (ids : List NodeId) :
    t.Logged (t.releaseLog ids) (t.release ids) :=
  .foldl (releaseNode_logged _) _ t

theorem resetNode_logged (fuel : Nat) (t : Tree) (id : NodeId) :
    t.Logged (resetNodeLog fuel t id) (resetNode fuel t id) := by
  induction fuel generalizing t id with
  | zero => exact .refl t
  | succ fuel ih =>
      have hclear := t.clearContent_logged id
      rw [resetNodeLog, resetNode]
      cases (t.node id).body with
      | leaf => exact hclear
      | sequence children => exact hclear.cons (.foldl ih _ _)
      | choice alternatives current =>
          exact (hclear.cons (setBody_logged _ _ _)).cons (.foldl ih _ _)
      | optional child present => exact (hclear.cons (setBody_logged _ _ _)).cons (.foldl ih _ _)
      | loop items => exact (hclear.cons (setBody_logged _ _ _)).cons (release_logged _ _)
      | separated items separators =>
          exact (hclear.cons (setBody_logged _ _ _)).cons (release_logged _ _)

theorem reset_logged (t : Tree) (id : NodeId) : t.Logged (t.resetLog id) (t.reset id) :=
  resetNode_logged _ t id

/-! ### New nodes -/

theorem allocEach_snd (alloc : DefId → Tree → NodeId × Tree) (ds : List DefId) (t : Tree) :
    (allocEach alloc ds t).2 = ds.foldl (fun t d => (alloc d t).2) t := by
  induction ds generalizing t with
  | nil => rfl
  | cons d ds ih => rw [allocEach, List.foldl_cons, ← ih]

theorem allocWith_logged {fill : DefId → NodeId → Tree → Tree}
    {log : DefId → NodeId → Tree → List NodeId}
    (hfill : ∀ d id (t : Tree), t.Logged (log d id t) (fill d id t)) (fuel : Nat)
    (parent : Option NodeId) (d : DefId) (t : Tree) :
    t.Logged (allocWithLog fill log fuel parent d t) (allocWith fill fuel parent d t).2 := by
  induction fuel generalizing parent d t with
  | zero => exact occupy_logged _ _
  | succ fuel ih =>
      have hoccupy := t.occupy_logged (t.freshNode d parent)
      rw [allocWithLog, allocWith]
      rcases hid : t.occupy (t.freshNode d parent) with ⟨id, t'⟩
      rw [hid] at hoccupy
      dsimp only at hoccupy ⊢
      cases t'.grammar.shape d with
      | sequence items =>
          have hchildren := Logged.foldl (fun t d => ih (some id) d t) items t'
          rw [← allocEach_snd (allocWith fill fuel (some id))] at hchildren
          exact hoccupy.cons ((hchildren.snoc (setBody_logged _ _ _)).trans (hfill _ _ _))
      | _ => exact hoccupy.cons (hfill _ _ _)

/-- Without default contents a new node releases nothing. -/
theorem allocWithLog_nil (fill : DefId → NodeId → Tree → Tree) (fuel : Nat) (parent : Option NodeId)
    (d : DefId) (t : Tree) : allocWithLog fill (fun _ _ _ => []) fuel parent d t = [] := by
  induction fuel generalizing parent d t with
  | zero => rfl
  | succ fuel ih =>
      rw [allocWithLog]
      dsimp only
      split
      · rw [List.append_nil]
        exact logEach_eq_nil (fun t d => ih _ d t) _ _
      · rfl

theorem alloc_logged (parent : NodeId) (d : DefId) (t : Tree) :
    t.Logged [] (Tree.alloc parent d t).2 := by
  have hfill : ∀ (d : DefId) (id : NodeId) (t : Tree), t.Logged [] t := fun _ _ t => .refl t
  have h := allocWith_logged hfill t.allocFuel (some parent) d t
  rwa [allocWithLog_nil] at h

end Tree

namespace Edit

variable {e : Edit}

theorem store_logged (e : Edit) (id : NodeId) (content : Text) :
    e.tree.Logged [] (e.store id content).tree :=
  modify_logged (f := fun n => { n with content := some content }) rfl

theorem setBody_logged (e : Edit) (id : NodeId) (body : Body) :
    e.tree.Logged [] (e.onTree fun t => t.setBody id body).tree :=
  Tree.setBody_logged e.tree id body

theorem orAlloc_logged (e : Edit) (existing : Option NodeId) (parent : NodeId) (d : DefId) :
    e.tree.Logged [] (e.orAlloc existing parent d).2.tree := by
  cases existing with
  | none => exact alloc_logged parent d e.tree
  | some id => exact .refl _

theorem clearLoser_logged (e : Edit) (alternatives : List (Option NodeId)) (current : Option Nat)
    (index : Nat) : e.tree.Logged (e.clearLoserLog alternatives current index)
      (e.clearLoser alternatives current index).tree := by
  cases current with
  | none => exact .refl _
  | some previous =>
      rw [clearLoserLog, clearLoser]
      split
      · exact .refl _
      · cases alternatives[previous]?.join with
        | none => exact .refl _
        | some loser => exact reset_logged _ _

mutual

/-- **The record of an assignment.** -/
theorem assign_logged (text : Text) : ∀ (split : Split) (id : NodeId) (e : Edit),
    e.tree.Logged (assignLog text split id e) (assign text split id e).tree
  | .leaf span, id, e => store_logged e id _
  | .sequence span parts, id, e => by
      refine Logged.snoc ?_ (store_logged _ _ _)
      rw [assignLog]
      cases (e.tree.node id).body with
      | sequence children => exact assignEach_logged text parts children e
      | _ => exact .refl _
  | .choice span index inner, id, e => by
      refine Logged.snoc ?_ (store_logged _ _ _)
      rw [assignLog]
      cases (e.tree.node id).body with
      | choice alternatives current =>
          have hclear := clearLoser_logged e alternatives current index
          have halloc := (e.clearLoser alternatives current index).orAlloc_logged
            alternatives[index]?.join id
            (alternativeDef (e.clearLoser alternatives current index).tree id index)
          exact hclear.trans
            ((halloc.snoc (setBody_logged _ _ _)).cons (assign_logged text inner _ _))
      | _ => exact .refl _
  | .absent span, id, e => by
      refine Logged.snoc ?_ (store_logged _ _ _)
      rw [assignLog]
      cases (e.tree.node id).body with
      | optional child present =>
          cases child with
          | none => exact setBody_logged _ _ _
          | some child =>
              exact (reset_logged e.tree child).snoc
                (setBody_logged (e.onTree fun t => t.reset child) id _)
      | _ => exact .refl _
  | .present span inner, id, e => by
      refine Logged.snoc ?_ (store_logged _ _ _)
      rw [assignLog]
      cases (e.tree.node id).body with
      | optional child present =>
          have halloc := e.orAlloc_logged child id (itemDef e.tree id)
          exact (halloc.snoc (setBody_logged _ _ _)).cons (assign_logged text inner _ _)
      | _ => exact .refl _
  | .loop span items, id, e => by
      refine Logged.snoc ?_ (store_logged _ _ _)
      rw [assignLog]
      cases (e.tree.node id).body with
      | loop old =>
          have hspawn := spawnEach_logged text items
            (itemDef (e.tree.release old) id) id (e.onTree fun t => t.release old)
          exact (release_logged _ old).trans (hspawn.snoc (setBody_logged _ _ _))
      | _ => exact .refl _
  | .separated span items separators, id, e => by
      refine Logged.snoc ?_ (store_logged _ _ _)
      rw [assignLog]
      cases (e.tree.node id).body with
      | separated oldItems oldSeparators =>
          have hold := (release_logged e.tree oldItems).trans (release_logged _ oldSeparators)
          have hitems := spawnEach_logged text items
            (itemDef ((e.tree.release oldItems).release oldSeparators) id) id
            (e.onTree fun t => (t.release oldItems).release oldSeparators)
          exact ((hold.trans hitems).trans (spawnEach_logged text separators _ _ _)).snoc
            (setBody_logged _ _ _)
      | _ => exact .refl _

theorem assignEach_logged (text : Text) : ∀ (parts : List Split) (ids : List NodeId) (e : Edit),
    e.tree.Logged (assignEachLog text parts ids e) (assignEach text parts ids e).tree
  | [], _, _ => .refl _
  | _ :: _, [], _ => .refl _
  | part :: parts, id :: ids, e =>
      (assign_logged text part id e).trans (assignEach_logged text parts ids _)

theorem spawnEach_logged (text : Text) : ∀ (parts : List Split) (d : DefId) (parent : NodeId)
    (e : Edit), e.tree.Logged (spawnEachLog text parts d parent e)
      (spawnEach text parts d parent e).2.tree
  | [], _, _, _ => .refl _
  | part :: parts, d, parent, e =>
      have halloc := alloc_logged parent d e.tree
      have hpart := assign_logged text part (e.alloc parent d).1 (e.alloc parent d).2
      halloc.cons (hpart.trans (spawnEach_logged text parts d parent _))

end

theorem spawn_logged (text : Text) (split : Split) (d : DefId) (parent : NodeId) (e : Edit) :
    e.tree.Logged (spawnLog text split d parent e) (spawn text split d parent e).2.tree := by
  have halloc := alloc_logged parent d e.tree
  exact halloc.cons (assign_logged text split (e.alloc parent d).1 (e.alloc parent d).2)

theorem spawnSeparator_logged (separator : Option (DefId × Text × Split)) (parent : NodeId)
    (e : Edit) : e.tree.Logged (spawnSeparatorLog separator parent e)
      (spawnSeparator separator parent e).2.tree := by
  cases separator with
  | none => exact .refl _
  | some separator => exact spawn_logged _ _ _ _ _

theorem propagateUp_logged (id : NodeId) (e : Edit) : e.tree.Logged [] (propagateUp id e).tree :=
  propagateUp_invariant (P := e.tree.Logged []) (fun e _ _ h => h.snoc (store_logged e _ _))
    (.refl e.tree) id

end Edit

/-! ### Calls -/

namespace Tree

theorem fillDefault_logged (d : DefId) (id : NodeId) (t : Tree) :
    t.Logged (fillDefaultLog d id t) (fillDefault d id t) := by
  rw [fillDefaultLog, fillDefault]
  cases t.grammar.defaultContent? d with
  | none => exact .refl t
  | some text =>
      dsimp only
      cases (resolve t.grammar d text).result with
      | error err => exact .refl t
      | ok split => exact Edit.assign_logged text split id ⟨t, []⟩

theorem allocFilled_logged (parent : Option NodeId) (d : DefId) (t : Tree) :
    t.Logged (t.allocFilledLog parent d) (t.allocFilled parent d).2 :=
  allocWith_logged fillDefault_logged _ parent d t

theorem create_logged {d : DefId} {change : Change NodeId} (h : t.create d = .ok change) :
    t.Logged (t.allocFilledLog none d) change.tree := by
  obtain ⟨-, created, t₂, halloc, rfl⟩ := create_ok h
  have hfilled := t.allocFilled_logged none d
  rwa [halloc] at hfilled

theorem setContent_logged {change : Change Unit} (h : (t.setContent n text).result = .ok change) :
    t.Logged (t.performLog (.setContent n text)) change.tree := by
  obtain ⟨split, -, hsplit, rfl⟩ := setContent_ok h
  rw [performLog, hsplit]
  exact (Edit.assign_logged text split n ⟨t, []⟩).snoc (Edit.propagateUp_logged _ _)

theorem insert_logged {index : Nat} {change : Change NodeId}
    (h : t.insert n index text = .ok change) : t.Logged (t.insertLog n text) change.tree := by
  obtain ⟨rule, items, split, separator, hrule, hitems, -, -, hsplit, hseparator, item, e₁, s, e₂,
    hitem, hs, rfl⟩ := insert_ok h
  have hspawn := Edit.spawn_logged text split rule.item n ⟨t, []⟩
  have hspawn' := Edit.spawnSeparator_logged separator n e₁
  rw [hitem] at hspawn
  rw [hs] at hspawn'
  simp only [insertLog, hrule, hitems, hsplit, hseparator, hitem]
  have hbody := e₂.setBody_logged n (insertParts (e₂.tree.node n).body index item s)
  exact (((hspawn.trans hspawn').snoc hbody).snoc (Edit.store_logged _ _ _)).snoc
    (Edit.propagateUp_logged _ _)

theorem remove_logged {index : Nat} {change : Change Unit} (h : t.remove n index = .ok change) :
    t.Logged (t.performLog (.remove n index)) change.tree := by
  obtain ⟨rule, items, -, -, -, -, rfl⟩ := remove_ok h
  have hbody := t.setBody_logged n (removeParts (t.node n).body index).1
  have hrelease := (t.setBody n (removeParts (t.node n).body index).1).release_logged
    (removeParts (t.node n).body index).2
  exact ((hbody.cons hrelease).snoc (Edit.store_logged ⟨_, []⟩ _ _)).snoc
    (Edit.propagateUp_logged _ _)

theorem alternative_logged {index : Nat} {change : Change NodeId}
    (h : t.alternative n index = .ok change) : t.Logged (t.alternativeLog n index) change.tree := by
  obtain ⟨alternatives, current, -, hbody, ⟨existing, hexisting, rfl⟩ |
    ⟨hnone, created, t₂, halloc, rfl⟩⟩ := alternative_ok h
  · simp only [alternativeLog, hbody, hexisting]
    exact .refl t
  · simp only [alternativeLog, hbody, hnone]
    have hfilled := t.allocFilled_logged (some n) (Edit.alternativeDef t n index)
    rw [halloc] at hfilled
    exact hfilled.snoc (setBody_logged _ _ _)

theorem alternativeOf_logged {d : DefId} {change : Change NodeId}
    (h : t.alternativeOf n d = .ok change) :
    t.Logged (t.performLog (.alternativeOf n d)) change.tree := by
  obtain ⟨alternatives, index, hshape, hindex, hc⟩ := alternativeOf_eq_ok.1 h
  simp only [performLog, hshape, hindex]
  exact alternative_logged hc

theorem optionalChild_logged {change : Change NodeId} (h : t.optionalChild n = .ok change) :
    t.Logged (t.performLog (.optionalChild n)) change.tree := by
  obtain ⟨present, -, ⟨existing, hbody, rfl⟩ | ⟨hbody, created, t₂, halloc, rfl⟩⟩ :=
    optionalChild_ok h
  · simp only [performLog, hbody]
    exact .refl t
  · simp only [performLog, hbody]
    have hfilled := t.allocFilled_logged (some n) (Edit.itemDef t n)
    rw [halloc] at hfilled
    exact hfilled.snoc (setBody_logged _ _ _)

/-- **The record of a call.** -/
theorem perform_logged {op : Operation} {change : Change Answer} (h : t.perform op = .ok change) :
    t.Logged (t.performLog op) change.tree := by
  cases op with
  | create d =>
      obtain ⟨c, hc, -, htree, -⟩ := Change.map_ok h
      exact htree ▸ create_logged hc
  | setContent n text =>
      obtain ⟨c, hc, -, htree, -⟩ := Change.map_ok h
      exact htree ▸ setContent_logged hc
  | insert n index text =>
      obtain ⟨c, hc, -, htree, -⟩ := Change.map_ok h
      exact htree ▸ insert_logged hc
  | push n text =>
      obtain ⟨c, hc, -, htree, -⟩ := Change.map_ok h
      obtain ⟨items, -, hc⟩ := push_ok hc
      exact htree ▸ insert_logged hc
  | remove n index =>
      obtain ⟨c, hc, -, htree, -⟩ := Change.map_ok h
      exact htree ▸ remove_logged hc
  | alternative n index =>
      obtain ⟨c, hc, -, htree, -⟩ := Change.map_ok h
      exact htree ▸ alternative_logged hc
  | alternativeOf n d =>
      obtain ⟨c, hc, -, htree, -⟩ := Change.map_ok h
      exact htree ▸ alternativeOf_logged hc
  | optionalChild n =>
      obtain ⟨c, hc, -, htree, -⟩ := Change.map_ok h
      exact htree ▸ optionalChild_logged hc
  | addListener n =>
      obtain ⟨c, hc, -, htree, -⟩ := Change.map_ok h
      obtain ⟨node, -, hc⟩ := Except.bind_eq_ok.1 hc
      have hmodify : t.Logged [] (t.modify n fun m =>
          { m with listeners := m.listeners ++ [t.nextListener] }) := modify_logged rfl
      rw [← htree, ← Except.ok.inj hc]
      exact hmodify.snoc (.of_generation (Nat.le_refl _) (fun _ => rfl) fun _ hi => hi)
  | removeListener n l =>
      obtain ⟨c, hc, -, htree, -⟩ := Change.map_ok h
      obtain ⟨node, -, hc⟩ := Except.bind_eq_ok.1 hc
      rw [← htree, ← Except.ok.inj hc]
      exact modify_logged (f := fun m => { m with listeners := m.listeners.filter (· != l) }) rfl

end Tree

namespace Session

/-- **The record of a run.** -/
theorem foldl_logged (ops : List Operation) (s : Session) :
    s.tree.Logged (logEach step stepLog s ops) (ops.foldl step s).tree := by
  induction ops generalizing s with
  | nil => exact .refl _
  | cons op ops ih =>
      have hstep : s.tree.Logged (s.stepLog op) (s.step op).tree := by
        rw [stepLog, step]
        cases hok : s.tree.perform op with
        | error err => exact .refl _
        | ok change => exact perform_logged hok
      exact hstep.trans (ih _)

theorem run_logged (g : Grammar) (ops : List Operation) :
    (Tree.empty g).Logged (released g ops) (run g ops).tree :=
  foldl_logged ops ⟨.empty g, []⟩

end Session

end Tessera
