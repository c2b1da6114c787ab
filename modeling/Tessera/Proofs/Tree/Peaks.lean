/-
**The most nodes at once.**

A slot is added only when no slot is free, that is, when every slot holds a live node.  So a tree has
as many slots as there were live nodes at one moment.  That moment may lie inside a call, which makes
and gives back many nodes.  The trees that a call passes through are written down here, beside each
operation that may make nodes: the tree right after each new node.  Between two of them nodes are
only given back, so that the largest number of live nodes is reached in one of them.

Main definitions:

* `Tessera.Tree.lives` — the handles of the live nodes;
* `Tessera.Tree.peak` — the largest number of live nodes that one of several trees has;
* `Tessera.Tree.Passes` — a tree came from another one, and these are the trees after each new node;
* `Tessera.Tree.allocWithBirths`, `Tessera.Edit.assignBirths`, `Tessera.Tree.performBirths` — the
  records of the operations;
* `Tessera.Session.births` — the record of a run of calls.

Main results:

* `Tessera.Tree.Passes.size_eq` — **slots are added up to the largest number of live nodes**;
* `Tessera.Edit.assign_passes`, `Tessera.Tree.perform_passes`, `Tessera.Session.run_passes` — the
  records of assignments, of calls and of runs;
* `Tessera.Session.arena_run` — **a text that is set again takes up no room**, and there are never
  more slots than there were live nodes at one moment.
-/

import Tessera.Proofs.Tree.Ownership
import Tessera.Proofs.Tree.Recycling

set_option autoImplicit false

namespace Tessera

open Tessera.Tree

variable {g : Grammar} {t t' t'' : Tree} {id n : NodeId} {ms ms' : List Tree} {text : Text}

/-! ### Live nodes -/

namespace Tree

/-- The handles of the live nodes, from the first slot to the last. -/
def lives (t : Tree) : List NodeId :=
  ((List.range t.slots.size).filter (· ∉ t.free)).map fun i => ⟨i, (t.slot i).generation⟩

theorem mem_lives : id ∈ t.lives ↔ t.Live id := by
  simp only [lives, List.mem_map, List.mem_filter, List.mem_range, decide_eq_true_eq]
  constructor
  · rintro ⟨i, ⟨hsize, hfree⟩, rfl⟩
    exact ⟨hsize, hfree, rfl⟩
  · intro h
    exact ⟨id.index, ⟨h.size, h.occupied⟩, by rw [← node_eq_slot, h.generation]⟩

theorem length_lives_le (t : Tree) : t.lives.length ≤ t.slots.size := by
  rw [lives, List.length_map]
  exact (List.length_filter_le _ _).trans_eq List.length_range

/-- Without free slots each slot holds a live node. -/
theorem length_lives_of_free (h : t.free = []) : t.lives.length = t.slots.size := by
  simp [lives, h]

/-- The largest number of live nodes that one of several trees has. -/
def peak (ts : List Tree) : Nat := (ts.map fun t => t.lives.length).foldr max 0

@[simp] theorem peak_nil : peak [] = 0 := rfl

theorem peak_cons (t : Tree) (ts : List Tree) : peak (t :: ts) = max t.lives.length (peak ts) := rfl

theorem peak_append (ts us : List Tree) : peak (ts ++ us) = max (peak ts) (peak us) := by
  induction ts with
  | nil => simp
  | cons t ts ih => rw [List.cons_append, peak_cons, peak_cons, ih, Nat.max_assoc]

/-! ### Trees on the way -/

/-- The tree `t'` came from `t`, and `ms` are the trees on the way, each right after a node was
made. -/
inductive Passes : Tree → List Tree → Tree → Prop
  | still {t t' : Tree} (hsize : t'.slots.size = t.slots.size) (hfree : t'.free = t.free) :
      Passes t [] t'
  | made (t : Tree) (n : Node) : Passes t [(t.occupy n).2] (t.occupy n).2
  | released (t : Tree) (id : NodeId) : Passes t [] (t.vacate id)
  | trans {t t' t'' : Tree} {ms ms' : List Tree} (h : Passes t ms t') (h' : Passes t' ms' t'') :
      Passes t (ms ++ ms') t''

namespace Passes

theorem refl (t : Tree) : t.Passes [] t := .still rfl rfl

/-- A step that makes no node, after others. -/
theorem snoc (h : t.Passes ms t') (h' : t'.Passes [] t'') : t.Passes ms t'' := by
  simpa using h.trans h'

/-- A step that makes no node, before others. -/
theorem cons (h : t.Passes [] t') (h' : t'.Passes ms t'') : t.Passes ms t'' := by
  simpa using h.trans h'

/-- Steps that make no nodes make none together. -/
theorem foldl {α : Type} {f : Tree → α → Tree} (hf : ∀ (t : Tree) a, t.Passes [] (f t a)) (as : List α)
    (t : Tree) : t.Passes [] (as.foldl f t) := by
  induction as generalizing t with
  | nil => exact .refl t
  | cons a as ih => exact (hf t a).cons (ih _)

theorem modify (t : Tree) (id : NodeId) (f : Node → Node) : t.Passes [] (t.modify id f) :=
  .still (size_modify t id f) rfl

/-- A new node adds a slot only when each slot holds a live node. -/
theorem size_occupy (t : Tree) (n : Node) :
    (t.occupy n).2.slots.size = max t.slots.size (t.occupy n).2.lives.length := by
  have hle := length_lives_le (t.occupy n).2
  cases hfree : t.free with
  | nil =>
      have hslots : (t.occupy n).2.slots.size = t.slots.size + 1 := by simp [occupy, hfree]
      have hnone : (t.occupy n).2.free = [] := by simp [occupy, hfree]
      have hall := length_lives_of_free hnone
      omega
  | cons i free =>
      have hslots : (t.occupy n).2.slots.size = t.slots.size := by simp [occupy, hfree]
      omega

/-- **Slots are added up to the largest number of live nodes.** -/
theorem size_eq (h : t.Passes ms t') : t'.slots.size = max t.slots.size (peak ms) := by
  induction h with
  | still hsize hfree => simp [hsize]
  | made t n => rw [size_occupy, peak_cons, peak_nil, Nat.max_zero]
  | released t id => simp [size_vacate]
  | trans h h' ih ih' => rw [ih', ih, peak_append, Nat.max_assoc]

end Passes

/-! ### Released and cleared nodes -/

theorem releaseNode_passes (fuel : Nat) (t : Tree) (id : NodeId) :
    t.Passes [] (releaseNode fuel t id) := by
  induction fuel generalizing t id with
  | zero => exact .refl t
  | succ fuel ih =>
      rw [releaseNode]
      split
      · exact .refl t
      · exact (Passes.released t id).cons (.foldl ih _ _)

theorem release_passes (t : Tree) (ids : List NodeId) : t.Passes [] (t.release ids) :=
  .foldl (releaseNode_passes _) _ t

theorem resetNode_passes (fuel : Nat) (t : Tree) (id : NodeId) :
    t.Passes [] (resetNode fuel t id) := by
  induction fuel generalizing t id with
  | zero => exact .refl t
  | succ fuel ih =>
      have hclear : t.Passes [] (t.clearContent id) := .modify _ _ _
      have hbody : ∀ body, t.Passes [] ((t.clearContent id).setBody id body) :=
        fun body => hclear.cons (.modify _ _ _)
      rw [resetNode]
      cases (t.node id).body with
      | leaf => exact hclear
      | sequence children => exact hclear.cons (.foldl ih _ _)
      | choice alternatives current => exact (hbody _).cons (.foldl ih _ _)
      | optional child present => exact (hbody _).cons (.foldl ih _ _)
      | loop items => exact (hbody _).cons (release_passes _ _)
      | separated items separators => exact (hbody _).cons (release_passes _ _)

theorem reset_passes (t : Tree) (id : NodeId) : t.Passes [] (t.reset id) := resetNode_passes _ t id

/-! ### New nodes -/

/-- The record of `Tree.allocEach`, where `births` is that of `alloc`. -/
def allocEachBirths (alloc : DefId → Tree → NodeId × Tree) (births : DefId → Tree → List Tree) :
    List DefId → Tree → List Tree
  | [], _ => []
  | d :: ds, t => births d t ++ allocEachBirths alloc births ds (alloc d t).2

/-- The record of `Tree.allocWith`, where `births` is that of `fill`. -/
def allocWithBirths (fill : DefId → NodeId → Tree → Tree)
    (births : DefId → NodeId → Tree → List Tree) : Nat → Option NodeId → DefId → Tree → List Tree
  | 0, parent, d, t => [(t.occupy (t.freshNode d parent)).2]
  | fuel + 1, parent, d, t =>
      let (id, t) := t.occupy (t.freshNode d parent)
      match t.grammar.shape d with
      | .sequence items =>
          let (children, t') := allocEach (allocWith fill fuel (some id)) items t
          [t] ++ allocEachBirths (allocWith fill fuel (some id))
              (allocWithBirths fill births fuel (some id)) items t ++
            births d id (t'.setBody id (.sequence children))
      | _ => [t] ++ births d id t

/-- The record of `Tree.alloc`. -/
def allocBirths (parent : NodeId) (d : DefId) (t : Tree) : List Tree :=
  allocWithBirths (fun _ _ t => t) (fun _ _ _ => []) t.allocFuel (some parent) d t

theorem allocEach_passes {alloc : DefId → Tree → NodeId × Tree} {births : DefId → Tree → List Tree}
    (halloc : ∀ d (t : Tree), t.Passes (births d t) (alloc d t).2) (ds : List DefId) (t : Tree) :
    t.Passes (allocEachBirths alloc births ds t) (allocEach alloc ds t).2 := by
  induction ds generalizing t with
  | nil => exact .refl t
  | cons d ds ih => exact (halloc d t).trans (ih _)

theorem allocWith_passes {fill : DefId → NodeId → Tree → Tree}
    {births : DefId → NodeId → Tree → List Tree}
    (hfill : ∀ d id (t : Tree), t.Passes (births d id t) (fill d id t)) (fuel : Nat)
    (parent : Option NodeId) (d : DefId) (t : Tree) :
    t.Passes (allocWithBirths fill births fuel parent d t) (allocWith fill fuel parent d t).2 := by
  induction fuel generalizing parent d t with
  | zero => exact .made t _
  | succ fuel ih =>
      have hmade := Passes.made t (t.freshNode d parent)
      rw [allocWithBirths, allocWith]
      rcases hid : t.occupy (t.freshNode d parent) with ⟨id, t'⟩
      rw [hid] at hmade
      dsimp only at hmade ⊢
      cases t'.grammar.shape d with
      | sequence items =>
          have hchildren := allocEach_passes (ih (some id)) items t'
          exact ((hmade.trans hchildren).snoc (.modify _ _ _)).trans (hfill _ _ _)
      | _ => exact hmade.trans (hfill _ _ _)

theorem alloc_passes (parent : NodeId) (d : DefId) (t : Tree) :
    t.Passes (t.allocBirths parent d) (Tree.alloc parent d t).2 :=
  allocWith_passes (fun _ _ t => .refl t) _ _ d t

end Tree

namespace Edit

variable {e : Edit}

/-- The record of `Edit.orAlloc`. -/
def orAllocBirths (e : Edit) (existing : Option NodeId) (parent : NodeId) (d : DefId) : List Tree :=
  match existing with
  | some _ => []
  | none => e.tree.allocBirths parent d

mutual

/-- The record of `Edit.assign`. -/
def assignBirths (text : Text) : Split → NodeId → Edit → List Tree
  | .leaf _, _, _ => []
  | .sequence _ parts, id, e =>
      match (e.tree.node id).body with
      | .sequence children => assignEachBirths text parts children e
      | _ => []
  | .choice _ index inner, id, e =>
      match (e.tree.node id).body with
      | .choice alternatives current =>
          let e := e.clearLoser alternatives current index
          let d := alternativeDef e.tree id index
          let births := e.orAllocBirths alternatives[index]?.join id d
          let (child, e) := e.orAlloc alternatives[index]?.join id d
          let body : Body := .choice (alternatives.set index (some child)) (some index)
          births ++ assignBirths text inner child (e.onTree fun t => t.setBody id body)
      | _ => []
  | .absent _, _, _ => []
  | .present _ inner, id, e =>
      match (e.tree.node id).body with
      | .optional child _ =>
          let births := e.orAllocBirths child id (itemDef e.tree id)
          let (child, e) := e.orAlloc child id (itemDef e.tree id)
          births ++
            assignBirths text inner child (e.onTree fun t => t.setBody id (.optional (some child) true))
      | _ => []
  | .loop _ items, id, e =>
      match (e.tree.node id).body with
      | .loop old =>
          let e := e.onTree fun t => t.release old
          spawnEachBirths text items (itemDef e.tree id) id e
      | _ => []
  | .separated _ items separators, id, e =>
      match (e.tree.node id).body with
      | .separated oldItems oldSeparators =>
          let e := e.onTree fun t => (t.release oldItems).release oldSeparators
          let births := spawnEachBirths text items (itemDef e.tree id) id e
          let (_, e) := spawnEach text items (itemDef e.tree id) id e
          births ++ spawnEachBirths text separators (separatorDef e.tree id) id e
      | _ => []

/-- The record of `Edit.assignEach`. -/
def assignEachBirths (text : Text) : List Split → List NodeId → Edit → List Tree
  | part :: parts, id :: ids, e =>
      assignBirths text part id e ++ assignEachBirths text parts ids (assign text part id e)
  | _, _, _ => []

/-- The record of `Edit.spawnEach`. -/
def spawnEachBirths (text : Text) : List Split → DefId → NodeId → Edit → List Tree
  | [], _, _, _ => []
  | part :: parts, d, parent, e =>
      let births := e.tree.allocBirths parent d
      let (id, e) := e.alloc parent d
      births ++ assignBirths text part id e ++
        spawnEachBirths text parts d parent (assign text part id e)

end

/-- The record of `Edit.spawn`. -/
def spawnBirths (text : Text) (split : Split) (d : DefId) (parent : NodeId) (e : Edit) : List Tree :=
  let births := e.tree.allocBirths parent d
  let (id, e) := e.alloc parent d
  births ++ assignBirths text split id e

/-- The record of `Edit.spawnSeparator`. -/
def spawnSeparatorBirths (separator : Option (DefId × Text × Split)) (parent : NodeId) (e : Edit) :
    List Tree :=
  match separator with
  | some (d, text, split) => spawnBirths text split d parent e
  | none => []

theorem store_passes (e : Edit) (id : NodeId) (content : Text) :
    e.tree.Passes [] (e.store id content).tree :=
  .still (size_modify _ _ _) rfl

theorem setBody_passes (e : Edit) (id : NodeId) (body : Body) :
    e.tree.Passes [] (e.onTree fun t => t.setBody id body).tree :=
  .still (size_modify _ _ _) rfl

theorem orAlloc_passes (e : Edit) (existing : Option NodeId) (parent : NodeId) (d : DefId) :
    e.tree.Passes (e.orAllocBirths existing parent d) (e.orAlloc existing parent d).2.tree := by
  cases existing with
  | none => exact alloc_passes parent d e.tree
  | some id => exact .refl _

theorem clearLoser_passes (e : Edit) (alternatives : List (Option NodeId)) (current : Option Nat)
    (index : Nat) : e.tree.Passes [] (e.clearLoser alternatives current index).tree := by
  cases current with
  | none => exact .refl _
  | some previous =>
      rw [clearLoser]
      split
      · exact .refl _
      · cases alternatives[previous]?.join with
        | none => exact .refl _
        | some loser => exact reset_passes _ _

mutual

/-- **The record of an assignment.** -/
theorem assign_passes (text : Text) : ∀ (split : Split) (id : NodeId) (e : Edit),
    e.tree.Passes (assignBirths text split id e) (assign text split id e).tree
  | .leaf span, id, e => store_passes e id _
  | .sequence span parts, id, e => by
      refine Passes.snoc ?_ (store_passes _ _ _)
      rw [assignBirths]
      cases (e.tree.node id).body with
      | sequence children => exact assignEach_passes text parts children e
      | _ => exact .refl _
  | .choice span index inner, id, e => by
      refine Passes.snoc ?_ (store_passes _ _ _)
      rw [assignBirths]
      cases (e.tree.node id).body with
      | choice alternatives current =>
          have hclear := clearLoser_passes e alternatives current index
          have halloc := (e.clearLoser alternatives current index).orAlloc_passes
            alternatives[index]?.join id
            (alternativeDef (e.clearLoser alternatives current index).tree id index)
          exact (hclear.cons (halloc.snoc (setBody_passes _ _ _))).trans
            (assign_passes text inner _ _)
      | _ => exact .refl _
  | .absent span, id, e => by
      refine Passes.snoc ?_ (store_passes _ _ _)
      cases (e.tree.node id).body with
      | optional child present =>
          cases child with
          | none => exact setBody_passes _ _ _
          | some child =>
              exact (reset_passes e.tree child).snoc
                (setBody_passes (e.onTree fun t => t.reset child) id _)
      | _ => exact .refl _
  | .present span inner, id, e => by
      refine Passes.snoc ?_ (store_passes _ _ _)
      rw [assignBirths]
      cases (e.tree.node id).body with
      | optional child present =>
          have halloc := e.orAlloc_passes child id (itemDef e.tree id)
          exact (halloc.snoc (setBody_passes _ _ _)).trans (assign_passes text inner _ _)
      | _ => exact .refl _
  | .loop span items, id, e => by
      refine Passes.snoc ?_ (store_passes _ _ _)
      rw [assignBirths]
      cases (e.tree.node id).body with
      | loop old =>
          have hspawn := spawnEach_passes text items
            (itemDef (e.tree.release old) id) id (e.onTree fun t => t.release old)
          exact (release_passes _ old).cons (hspawn.snoc (setBody_passes _ _ _))
      | _ => exact .refl _
  | .separated span items separators, id, e => by
      refine Passes.snoc ?_ (store_passes _ _ _)
      rw [assignBirths]
      cases (e.tree.node id).body with
      | separated oldItems oldSeparators =>
          have hold := (release_passes e.tree oldItems).cons (release_passes _ oldSeparators)
          have hitems := spawnEach_passes text items
            (itemDef ((e.tree.release oldItems).release oldSeparators) id) id
            (e.onTree fun t => (t.release oldItems).release oldSeparators)
          exact ((hold.cons hitems).trans (spawnEach_passes text separators _ _ _)).snoc
            (setBody_passes _ _ _)
      | _ => exact .refl _

theorem assignEach_passes (text : Text) : ∀ (parts : List Split) (ids : List NodeId) (e : Edit),
    e.tree.Passes (assignEachBirths text parts ids e) (assignEach text parts ids e).tree
  | [], _, _ => .refl _
  | _ :: _, [], _ => .refl _
  | part :: parts, id :: ids, e =>
      (assign_passes text part id e).trans (assignEach_passes text parts ids _)

theorem spawnEach_passes (text : Text) : ∀ (parts : List Split) (d : DefId) (parent : NodeId)
    (e : Edit), e.tree.Passes (spawnEachBirths text parts d parent e)
      (spawnEach text parts d parent e).2.tree
  | [], _, _, _ => .refl _
  | part :: parts, d, parent, e =>
      have halloc := alloc_passes parent d e.tree
      have hpart := assign_passes text part (e.alloc parent d).1 (e.alloc parent d).2
      (halloc.trans hpart).trans (spawnEach_passes text parts d parent _)

end

theorem spawn_passes (text : Text) (split : Split) (d : DefId) (parent : NodeId) (e : Edit) :
    e.tree.Passes (spawnBirths text split d parent e) (spawn text split d parent e).2.tree := by
  have halloc := alloc_passes parent d e.tree
  exact halloc.trans (assign_passes text split (e.alloc parent d).1 (e.alloc parent d).2)

theorem spawnSeparator_passes (separator : Option (DefId × Text × Split)) (parent : NodeId)
    (e : Edit) : e.tree.Passes (spawnSeparatorBirths separator parent e)
      (spawnSeparator separator parent e).2.tree := by
  cases separator with
  | none => exact .refl _
  | some separator => exact spawn_passes _ _ _ _ _

theorem propagateUp_passes (id : NodeId) (e : Edit) : e.tree.Passes [] (propagateUp id e).tree :=
  propagateUp_invariant (P := e.tree.Passes []) (fun e _ _ h => h.snoc (store_passes e _ _))
    (.refl e.tree) id

end Edit

/-! ### Calls -/

namespace Tree

/-- The record of `Tree.fillDefault`. -/
def fillDefaultBirths (d : DefId) (id : NodeId) (t : Tree) : List Tree :=
  match t.grammar.defaultContent? d with
  | none => []
  | some text =>
      match (resolve t.grammar d text).result with
      | .ok split => Edit.assignBirths text split id ⟨t, []⟩
      | .error _ => []

/-- The record of `Tree.allocFilled`. -/
def allocFilledBirths (parent : Option NodeId) (d : DefId) (t : Tree) : List Tree :=
  allocWithBirths fillDefault fillDefaultBirths t.allocFuel parent d t

/-- The record of an insertion that succeeds. -/
def insertBirths (t : Tree) (id : NodeId) (text : Text) : List Tree :=
  match t.loopRule id, t.items id with
  | .ok rule, .ok items =>
      match (resolve t.grammar rule.item text).result, t.newSeparator id rule items.length with
      | .ok split, .ok separator =>
          let births := Edit.spawnBirths text split rule.item id ⟨t, []⟩
          let (_, e) := Edit.spawn text split rule.item id ⟨t, []⟩
          births ++ Edit.spawnSeparatorBirths separator id e
      | _, _ => []
  | _, _ => []

/-- The record of a call for the node of an alternative. -/
def alternativeBirths (t : Tree) (id : NodeId) (index : Nat) : List Tree :=
  match (t.node id).body with
  | .choice alternatives _ =>
      match alternatives[index]? with
      | some none => t.allocFilledBirths (some id) (Edit.alternativeDef t id index)
      | _ => []
  | _ => []

/-- The record of a call that succeeds. -/
def performBirths (t : Tree) : Operation → List Tree
  | .create d => t.allocFilledBirths none d
  | .setContent node text =>
      match (resolve t.grammar (t.node node).definition text).result with
      | .ok split => Edit.assignBirths text split node ⟨t, []⟩
      | .error _ => []
  | .insert node _ text => t.insertBirths node text
  | .push node text => t.insertBirths node text
  | .remove _ _ => []
  | .alternative node index => t.alternativeBirths node index
  | .alternativeOf node d =>
      match t.shapeOf node with
      | .choice alternatives =>
          match alternatives.findIdx? (· == d) with
          | some index => t.alternativeBirths node index
          | none => []
      | _ => []
  | .optionalChild node =>
      match (t.node node).body with
      | .optional none _ => t.allocFilledBirths (some node) (Edit.itemDef t node)
      | _ => []
  | .addListener _ => []
  | .removeListener _ _ => []

theorem fillDefault_passes (d : DefId) (id : NodeId) (t : Tree) :
    t.Passes (fillDefaultBirths d id t) (fillDefault d id t) := by
  rw [fillDefaultBirths, fillDefault]
  cases t.grammar.defaultContent? d with
  | none => exact .refl t
  | some text =>
      dsimp only
      cases (resolve t.grammar d text).result with
      | error err => exact .refl t
      | ok split => exact Edit.assign_passes text split id ⟨t, []⟩

theorem allocFilled_passes (parent : Option NodeId) (d : DefId) (t : Tree) :
    t.Passes (t.allocFilledBirths parent d) (t.allocFilled parent d).2 :=
  allocWith_passes fillDefault_passes _ parent d t

theorem create_passes {d : DefId} {change : Change NodeId} (h : t.create d = .ok change) :
    t.Passes (t.allocFilledBirths none d) change.tree := by
  obtain ⟨-, created, t₂, halloc, rfl⟩ := create_ok h
  have hfilled := t.allocFilled_passes none d
  rwa [halloc] at hfilled

theorem setContent_passes {change : Change Unit} (h : (t.setContent n text).result = .ok change) :
    t.Passes (t.performBirths (.setContent n text)) change.tree := by
  obtain ⟨split, -, hsplit, rfl⟩ := setContent_ok h
  rw [performBirths, hsplit]
  exact (Edit.assign_passes text split n ⟨t, []⟩).snoc (Edit.propagateUp_passes _ _)

theorem insert_passes {index : Nat} {change : Change NodeId}
    (h : t.insert n index text = .ok change) : t.Passes (t.insertBirths n text) change.tree := by
  obtain ⟨rule, items, split, separator, hrule, hitems, -, -, hsplit, hseparator, item, e₁, s, e₂,
    hitem, hs, rfl⟩ := insert_ok h
  have hspawn := Edit.spawn_passes text split rule.item n ⟨t, []⟩
  have hspawn' := Edit.spawnSeparator_passes separator n e₁
  rw [hitem] at hspawn
  rw [hs] at hspawn'
  simp only [insertBirths, hrule, hitems, hsplit, hseparator, hitem]
  have hbody := e₂.setBody_passes n (insertParts (e₂.tree.node n).body index item s)
  exact (((hspawn.trans hspawn').snoc hbody).snoc (Edit.store_passes _ _ _)).snoc
    (Edit.propagateUp_passes _ _)

theorem remove_passes {index : Nat} {change : Change Unit} (h : t.remove n index = .ok change) :
    t.Passes [] change.tree := by
  obtain ⟨rule, items, -, -, -, -, rfl⟩ := remove_ok h
  have hbody : t.Passes [] (t.setBody n (removeParts (t.node n).body index).1) := .modify _ _ _
  exact ((hbody.cons (release_passes _ _)).snoc (Edit.store_passes ⟨_, []⟩ _ _)).snoc
    (Edit.propagateUp_passes _ _)

theorem alternative_passes {index : Nat} {change : Change NodeId}
    (h : t.alternative n index = .ok change) :
    t.Passes (t.alternativeBirths n index) change.tree := by
  obtain ⟨alternatives, current, -, hbody, ⟨existing, hexisting, rfl⟩ |
    ⟨hnone, created, t₂, halloc, rfl⟩⟩ := alternative_ok h
  · simp only [alternativeBirths, hbody, hexisting]
    exact .refl t
  · simp only [alternativeBirths, hbody, hnone]
    have hfilled := t.allocFilled_passes (some n) (Edit.alternativeDef t n index)
    rw [halloc] at hfilled
    exact hfilled.snoc (.modify _ _ _)

theorem alternativeOf_passes {d : DefId} {change : Change NodeId}
    (h : t.alternativeOf n d = .ok change) :
    t.Passes (t.performBirths (.alternativeOf n d)) change.tree := by
  obtain ⟨alternatives, index, hshape, hindex, hc⟩ := alternativeOf_eq_ok.1 h
  simp only [performBirths, hshape, hindex]
  exact alternative_passes hc

theorem optionalChild_passes {change : Change NodeId} (h : t.optionalChild n = .ok change) :
    t.Passes (t.performBirths (.optionalChild n)) change.tree := by
  obtain ⟨present, -, ⟨existing, hbody, rfl⟩ | ⟨hbody, created, t₂, halloc, rfl⟩⟩ :=
    optionalChild_ok h
  · simp only [performBirths, hbody]
    exact .refl t
  · simp only [performBirths, hbody]
    have hfilled := t.allocFilled_passes (some n) (Edit.itemDef t n)
    rw [halloc] at hfilled
    exact hfilled.snoc (.modify _ _ _)

/-- **The record of a call.** -/
theorem perform_passes {op : Operation} {change : Change Answer} (h : t.perform op = .ok change) :
    t.Passes (t.performBirths op) change.tree := by
  cases op with
  | create d =>
      obtain ⟨c, hc, -, htree, -⟩ := Change.map_ok h
      exact htree ▸ create_passes hc
  | setContent n text =>
      obtain ⟨c, hc, -, htree, -⟩ := Change.map_ok h
      exact htree ▸ setContent_passes hc
  | insert n index text =>
      obtain ⟨c, hc, -, htree, -⟩ := Change.map_ok h
      exact htree ▸ insert_passes hc
  | push n text =>
      obtain ⟨c, hc, -, htree, -⟩ := Change.map_ok h
      obtain ⟨items, -, hc⟩ := push_ok hc
      exact htree ▸ insert_passes hc
  | remove n index =>
      obtain ⟨c, hc, -, htree, -⟩ := Change.map_ok h
      exact htree ▸ remove_passes hc
  | alternative n index =>
      obtain ⟨c, hc, -, htree, -⟩ := Change.map_ok h
      exact htree ▸ alternative_passes hc
  | alternativeOf n d =>
      obtain ⟨c, hc, -, htree, -⟩ := Change.map_ok h
      exact htree ▸ alternativeOf_passes hc
  | optionalChild n =>
      obtain ⟨c, hc, -, htree, -⟩ := Change.map_ok h
      exact htree ▸ optionalChild_passes hc
  | addListener n =>
      obtain ⟨c, hc, -, htree, -⟩ := Change.map_ok h
      obtain ⟨node, -, hc⟩ := Except.bind_eq_ok.1 hc
      have hmodify : t.Passes [] (t.modify n fun m =>
          { m with listeners := m.listeners ++ [t.nextListener] }) := .modify _ _ _
      rw [← htree, ← Except.ok.inj hc]
      exact hmodify.snoc (.still rfl rfl)
  | removeListener n l =>
      obtain ⟨c, hc, -, htree, -⟩ := Change.map_ok h
      obtain ⟨node, -, hc⟩ := Except.bind_eq_ok.1 hc
      rw [← htree, ← Except.ok.inj hc]
      exact .modify t n fun m => { m with listeners := m.listeners.filter (· != l) }

end Tree

/-! ### Runs -/

namespace Session

/-- The record of a call.  A call that fails makes no node. -/
def stepBirths (s : Session) (op : Operation) : List Tree :=
  match s.tree.perform op with
  | .ok _ => s.tree.performBirths op
  | .error _ => []

/-- The record of calls, one after the other. -/
def birthsFrom : Session → List Operation → List Tree
  | _, [] => []
  | s, op :: ops => s.stepBirths op ++ birthsFrom (s.step op) ops

/-- The trees that a run of calls from the empty tree passes through, each right after a node was
made. -/
def births (g : Grammar) (ops : List Operation) : List Tree := birthsFrom ⟨.empty g, []⟩ ops

theorem step_passes (s : Session) (op : Operation) :
    s.tree.Passes (s.stepBirths op) (s.step op).tree := by
  rw [stepBirths, step]
  cases hok : s.tree.perform op with
  | error err => exact .refl _
  | ok change => exact perform_passes hok

/-- **The record of a run.** -/
theorem foldl_passes (ops : List Operation) (s : Session) :
    s.tree.Passes (birthsFrom s ops) (ops.foldl step s).tree := by
  induction ops generalizing s with
  | nil => exact .refl _
  | cons op ops ih => exact (step_passes s op).trans (ih _)

theorem run_passes (g : Grammar) (ops : List Operation) :
    (Tree.empty g).Passes (births g ops) (run g ops).tree :=
  foldl_passes ops ⟨.empty g, []⟩

/-- **There are as many slots as there were live nodes at one moment**, and at no moment more. -/
theorem size_run (g : Grammar) (ops : List Operation) :
    (run g ops).tree.slots.size = peak (births g ops) := by
  rw [(run_passes g ops).size_eq]
  exact Nat.zero_max _

/-- **A text that is set again takes up no room.**  After a live node of a tree in use received a text,
the same text is accepted again, however often, and each time there are as many nodes and as many slots
as after the first time.  And the run passes through trees, also within its calls, one of which has at
least as many live nodes as there are slots in the end. -/
theorem arena_run {draft : Draft} (hbuild : draft.build = .ok g) (ops : List Operation) :
    (∀ (n : NodeId) (text : Text) (change : Change Unit), (run g ops).tree.Live n →
      ((run g ops).tree.setContent n text).result = .ok change → ∀ k, ∃ again,
        ((run g (ops ++ List.replicate (k + 1) (.setContent n text))).tree.setContent n text).result =
            .ok again ∧
          again.tree.nodeCount = change.tree.nodeCount ∧
          again.tree.slots.size = change.tree.slots.size) ∧
      (Tree.empty g).Passes (births g ops) (run g ops).tree ∧
      (run g ops).tree.slots.size ≤ peak (births g ops) := by
  refine ⟨fun n text change hn hok k => ?_, run_passes g ops, Nat.le_of_eq (size_run g ops)⟩
  have hvalid := Draft.build_valid hbuild
  have hrank := Draft.build_ranked hbuild
  obtain ⟨hgrammar, -, roots, hgarden, -⟩ := tended_run hvalid hrank ops
  have hreceived := hgarden.received_setContent (by rwa [hgrammar]) (by rwa [hgrammar]) hn hok
  rw [hgrammar] at hreceived
  have hstep : ((run g ops).step (.setContent n text)).tree = change.tree := by
    rw [step, Tree.perform, hok]
    rfl
  obtain ⟨hagain, hlevel⟩ :=
    level_replicate (s := (run g ops).step (.setContent n text)) (hstep ▸ hreceived) hvalid hrank k
  obtain ⟨again, hset, -, hsame⟩ := hagain.setContent_level hvalid hrank
  rw [hstep] at hlevel
  refine ⟨again, ?_, (hlevel.trans hsame).nodeCount, (hlevel.trans hsame).size⟩
  rw [run, List.foldl_append, List.replicate_succ, List.foldl_cons]
  exact hset

/-- The first part of a row receives the same two letters once more, without room for another node. -/
theorem arena_run_row :
    (∃ again, ((run rowGrammar (rowOperations ++ [.setContent ⟨2, 0⟩ ['a', 'a']])).tree.setContent
        ⟨2, 0⟩ ['a', 'a']).result = .ok again ∧
      again.tree.nodeCount = 9 ∧ again.tree.slots.size = 9) ∧
      rowTree.slots.size ≤ peak (births rowGrammar rowOperations) := by
  obtain ⟨hagain, -, hpeak⟩ := arena_run rowDraft_build rowOperations
  rw [run_rowOperations] at hagain hpeak
  obtain ⟨again, hset, hcount, hsize⟩ := hagain ⟨2, 0⟩ ['a', 'a'] rowLonger (by decide) setContent_row 0
  have hcounted : rowLonger.tree.nodeCount = 9 := by decide
  have hsized : rowLonger.tree.slots.size = 9 := by decide
  exact ⟨⟨again, hset, hcount.trans hcounted, hsize.trans hsized⟩, hpeak⟩

end Session

end Tessera
