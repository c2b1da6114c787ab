/-
**Definitions of all slots.**

A node keeps its definition as long as it is there, and what is left of it in a free slot keeps it,
too.  A definition comes into a tree with a new node only, and that of a new node was looked up by the
call that creates it, or is mentioned by the rule of the node above.  So every slot, free or not, has a
definition of the grammar.

Main definitions:

* `Tessera.Tree.Defined` — every slot has a definition of the grammar.

Main results:

* `Tessera.Tree.Defined.assign` — an assignment keeps it so, whatever is assigned;
* `Tessera.Session.defined_slots_run` — **every slot of a tree in use has a definition of the
  grammar**.
-/

import Tessera.Proofs.Tree.Releases

set_option autoImplicit false

namespace Tessera

open Tessera.Tree

/-- Every slot has a definition of the grammar. -/
structure Tree.Defined (t : Tree) (g : Grammar) : Prop where
  grammar : t.grammar = g
  lt : ∀ i < t.slots.size, (t.slot i).definition < g.size

namespace Tree.Defined

variable {t : Tree} {g : Grammar} {e : Edit} {id n : NodeId} {d : DefId} {text : Text}

/-! ### Single slots -/

theorem empty (g : Grammar) : (Tree.empty g).Defined g :=
  ⟨rfl, fun i hi => by simp [Tree.empty] at hi⟩

theorem modify (h : t.Defined g) {f : Node → Node}
    (hf : (f (t.node id)).definition = (t.node id).definition) : (t.modify id f).Defined g := by
  refine ⟨h.grammar, fun i hi => ?_⟩
  rw [size_modify] at hi
  by_cases heq : i = id.index
  · subst heq
    rw [slot_modify_self hi, ← node_eq_slot, hf]
    exact h.lt _ hi
  · rw [slot_modify_of_ne heq]
    exact h.lt i hi

theorem setBody (h : t.Defined g) (id : NodeId) (body : Body) : (t.setBody id body).Defined g :=
  h.modify rfl

theorem clearContent (h : t.Defined g) (id : NodeId) : (t.clearContent id).Defined g := h.modify rfl

/-- What is left of a released node keeps the definition. -/
theorem vacate (h : t.Defined g) (id : NodeId) : (t.vacate id).Defined g :=
  have hmodify : (t.modify id _).Defined g := h.modify (f := fun n =>
    { generation := n.generation + 1
      definition := n.definition
      content := none
      parent := none
      body := .leaf
      listeners := [] }) rfl
  ⟨hmodify.grammar, hmodify.lt⟩

theorem occupy (h : t.Defined g) {m : Node} (hm : m.definition < g.size) :
    (t.occupy m).2.Defined g := by
  cases hfree : t.free with
  | nil =>
      refine ⟨by simp [Tree.occupy, hfree, h.grammar], fun i hi => ?_⟩
      by_cases heq : i = t.slots.size
      · simpa [Tree.occupy, hfree, slot, Array.getD_eq_getD_getElem?, heq] using hm
      · have := h.lt i (by simp [Tree.occupy, hfree] at hi; omega)
        simpa [Tree.occupy, hfree, slot, Array.getD_eq_getD_getElem?, Array.getElem?_push,
          heq] using this
  | cons j free =>
      refine ⟨by simp [Tree.occupy, hfree, h.grammar], fun i hi => ?_⟩
      have hi : i < t.slots.size := by simpa [Tree.occupy, hfree] using hi
      by_cases heq : j = i
      · simpa [Tree.occupy, hfree, slot, Array.getD_eq_getD_getElem?, heq, hi] using hm
      · have := h.lt i hi
        simpa [Tree.occupy, hfree, slot, Array.getD_eq_getD_getElem?,
          Array.getElem?_setIfInBounds_ne heq] using this

/-- One step after another for the elements of a list. -/
theorem foldl {α : Type} {f : Tree → α → Tree} {as : List α}
    (hf : ∀ a ∈ as, ∀ t : Tree, t.Defined g → (f t a).Defined g) (h : t.Defined g) :
    (as.foldl f t).Defined g := by
  induction as generalizing t with
  | nil => exact h
  | cons a as ih =>
      exact ih (fun b hb => hf b (List.mem_cons_of_mem _ hb)) (hf a List.mem_cons_self t h)

/-! ### Released and cleared branches -/

theorem releaseNode (fuel : Nat) (h : t.Defined g) (id : NodeId) :
    (releaseNode fuel t id).Defined g := by
  induction fuel generalizing t id with
  | zero => exact h
  | succ fuel ih =>
      rw [Tree.releaseNode]
      cases t.lookup? id with
      | none => exact h
      | some m => exact (h.vacate id).foldl fun c _ s hs => ih hs c

theorem release (h : t.Defined g) (ids : List NodeId) : (t.release ids).Defined g :=
  h.foldl fun id _ _ hs => hs.releaseNode _ id

theorem resetNode (fuel : Nat) (h : t.Defined g) (id : NodeId) : (resetNode fuel t id).Defined g := by
  induction fuel generalizing t id with
  | zero => exact h
  | succ fuel ih =>
      have hclear := h.clearContent id
      rw [Tree.resetNode]
      cases (t.node id).body with
      | leaf => exact hclear
      | sequence children => exact hclear.foldl fun c _ s hs => ih hs c
      | choice alternatives current => exact (hclear.setBody id _).foldl fun c _ s hs => ih hs c
      | optional child present => exact (hclear.setBody id _).foldl fun c _ s hs => ih hs c
      | loop items => exact (hclear.setBody id _).release items
      | separated items separators => exact (hclear.setBody id _).release _

theorem reset (h : t.Defined g) (id : NodeId) : (t.reset id).Defined g := h.resetNode _ id

/-! ### New nodes -/

/-- The rule of any node mentions definitions of the grammar only. -/
theorem reference (h : t.Defined g) (hvalid : g.Valid) (hd : d ∈ (t.shapeOf id).references) :
    d < g.size := by
  rw [shapeOf, h.grammar] at hd
  exact hvalid.references_shape hd

/-- Whoever has parts is one of the nodes, so there are definitions. -/
theorem size_pos (h : t.Defined g) {body : Body} (hbody : (t.node id).body = body)
    (hparts : body ≠ .leaf) : 0 < g.size := by
  by_cases hsize : id.index < t.slots.size
  · exact Nat.lt_of_le_of_lt (Nat.zero_le _) (h.lt _ hsize)
  · rw [node_eq_slot, slot_of_size_le (Nat.le_of_not_lt hsize)] at hbody
    exact absurd hbody.symm hparts

theorem allocWith (hvalid : g.Valid) {fill : DefId → NodeId → Tree → Tree}
    (hfill : ∀ d id (t : Tree), t.Defined g → (fill d id t).Defined g) (fuel : Nat)
    (h : t.Defined g) (hd : d < g.size) (parent : Option NodeId) :
    (allocWith fill fuel parent d t).2.Defined g := by
  induction fuel generalizing parent d t with
  | zero => exact h.occupy hd
  | succ fuel ih =>
      have hoccupy := h.occupy (m := t.freshNode d parent) hd
      rw [Tree.allocWith]
      rcases hid : t.occupy (t.freshNode d parent) with ⟨id, s⟩
      rw [hid] at hoccupy
      dsimp only at hoccupy ⊢
      cases hshape : s.grammar.shape d with
      | sequence items =>
          refine hfill _ _ _ (setBody ?_ id _)
          rw [allocEach_snd]
          refine hoccupy.foldl fun e he s' hs' => ih hs' ?_ (some id)
          refine hvalid.references_shape (d := d) ?_
          rw [← hoccupy.grammar, hshape]
          exact he
      | _ => exact hfill _ _ _ hoccupy

theorem alloc (h : e.tree.Defined g) (hvalid : g.Valid) (hd : d < g.size) (parent : NodeId) :
    (e.alloc parent d).2.tree.Defined g :=
  allocWith hvalid (fun _ _ _ hs => hs) e.tree.allocFuel h hd (some parent)

theorem orAlloc (h : e.tree.Defined g) (hvalid : g.Valid) (hd : d < g.size)
    (existing : Option NodeId) (parent : NodeId) :
    (e.orAlloc existing parent d).2.tree.Defined g := by
  cases existing with
  | none => exact h.alloc hvalid hd parent
  | some id => exact h

/-! ### Assigned contents -/

theorem store (h : e.tree.Defined g) (id : NodeId) (w : Text) : (e.store id w).tree.Defined g :=
  h.modify (f := fun m => { m with content := some w }) rfl

theorem clearLoser (h : e.tree.Defined g) (alternatives : List (Option NodeId))
    (current : Option Nat) (index : Nat) : (e.clearLoser alternatives current index).tree.Defined g := by
  cases current with
  | none => exact h
  | some previous =>
      rw [Edit.clearLoser]
      split
      · exact h
      · cases alternatives[previous]?.join with
        | none => exact h
        | some loser => exact h.reset loser

theorem alternativeDef (h : t.Defined g) (hvalid : g.Valid) (hpos : 0 < g.size) (id : NodeId)
    (index : Nat) : Edit.alternativeDef t id index < g.size := by
  unfold Edit.alternativeDef
  split
  · next defs hshape =>
      rw [List.getD_eq_getElem?_getD]
      cases hd : defs[index]? with
      | none => exact hpos
      | some d => exact h.reference hvalid (by rw [hshape]; exact List.mem_of_getElem? hd)
  · exact hpos

theorem itemDef (h : t.Defined g) (hvalid : g.Valid) (hpos : 0 < g.size) (id : NodeId) :
    Edit.itemDef t id < g.size := by
  unfold Edit.itemDef
  split
  · next hshape => exact h.reference hvalid (by rw [hshape]; exact List.mem_cons_self)
  · next hshape => exact h.reference hvalid (by rw [hshape]; exact List.mem_cons_self)
  · next hshape => exact h.reference hvalid (by rw [hshape]; exact List.mem_cons_self)
  · exact hpos

theorem separatorDef (h : t.Defined g) (hvalid : g.Valid) (hpos : 0 < g.size) (id : NodeId) :
    Edit.separatorDef t id < g.size := by
  unfold Edit.separatorDef
  split
  · next hshape =>
      exact h.reference hvalid (by rw [hshape]; exact List.mem_cons_of_mem _ List.mem_cons_self)
  · exact hpos

mutual

/-- **An assignment keeps it so**, whatever is assigned to whichever node. -/
theorem assign (hvalid : g.Valid) (text : Text) : ∀ (split : Split) (id : NodeId) (e : Edit),
    e.tree.Defined g → (Edit.assign text split id e).tree.Defined g
  | .leaf span, id, e, h => by
      rw [Edit.assign]
      exact h.store id _
  | .sequence span parts, id, e, h => by
      rw [Edit.assign]
      refine store ?_ id _
      cases (e.tree.node id).body with
      | sequence children => exact assignEach hvalid text parts children e h
      | _ => exact h
  | .choice span index inner, id, e, h => by
      rw [Edit.assign]
      refine store ?_ id _
      cases hbody : (e.tree.node id).body with
      | choice alternatives current =>
          have hpos := h.size_pos hbody (by simp)
          have hclear := h.clearLoser alternatives current index
          have halloc := hclear.orAlloc hvalid (hclear.alternativeDef hvalid hpos id index)
            alternatives[index]?.join id
          exact assign hvalid text inner _ _ (halloc.setBody id _)
      | _ => exact h
  | .absent span, id, e, h => by
      rw [Edit.assign]
      refine store ?_ id _
      cases (e.tree.node id).body with
      | optional child present =>
          cases child with
          | none => exact h.setBody id _
          | some child => exact (h.reset child).setBody id _
      | _ => exact h
  | .present span inner, id, e, h => by
      rw [Edit.assign]
      refine store ?_ id _
      cases hbody : (e.tree.node id).body with
      | optional child present =>
          have hpos := h.size_pos hbody (by simp)
          have halloc := h.orAlloc hvalid (h.itemDef hvalid hpos id) child id
          exact assign hvalid text inner _ _ (halloc.setBody id _)
      | _ => exact h
  | .loop span items, id, e, h => by
      rw [Edit.assign]
      refine store ?_ id _
      cases hbody : (e.tree.node id).body with
      | loop old =>
          have hpos := h.size_pos hbody (by simp)
          have hold := h.release old
          have hspawn := spawnEach hvalid text items (Edit.itemDef (e.tree.release old) id) id
            (e.onTree fun t => t.release old) hold (hold.itemDef hvalid hpos id)
          exact hspawn.setBody id _
      | _ => exact h
  | .separated span items separators, id, e, h => by
      rw [Edit.assign]
      refine store ?_ id _
      cases hbody : (e.tree.node id).body with
      | separated oldItems oldSeparators =>
          have hpos := h.size_pos hbody (by simp)
          have hold := (h.release oldItems).release oldSeparators
          have hitems := spawnEach hvalid text items
            (Edit.itemDef ((e.tree.release oldItems).release oldSeparators) id) id
            (e.onTree fun t => (t.release oldItems).release oldSeparators) hold
            (hold.itemDef hvalid hpos id)
          have hseparators := spawnEach hvalid text separators _ id _ hitems
            (hitems.separatorDef hvalid hpos id)
          exact hseparators.setBody id _
      | _ => exact h

theorem assignEach (hvalid : g.Valid) (text : Text) : ∀ (parts : List Split) (ids : List NodeId)
    (e : Edit), e.tree.Defined g → (Edit.assignEach text parts ids e).tree.Defined g
  | [], _, _, h => h
  | _ :: _, [], _, h => h
  | part :: parts, id :: ids, e, h =>
      assignEach hvalid text parts ids _ (assign hvalid text part id e h)

theorem spawnEach (hvalid : g.Valid) (text : Text) : ∀ (parts : List Split) (d : DefId)
    (parent : NodeId) (e : Edit), e.tree.Defined g → d < g.size →
      (Edit.spawnEach text parts d parent e).2.tree.Defined g
  | [], _, _, _, h, _ => h
  | part :: parts, d, parent, _, h, hd =>
      spawnEach hvalid text parts d parent _
        (assign hvalid text part _ _ (h.alloc hvalid hd parent)) hd

end

theorem spawn (h : e.tree.Defined g) (hvalid : g.Valid) (hd : d < g.size) (text : Text)
    (split : Split) (parent : NodeId) : (Edit.spawn text split d parent e).2.tree.Defined g :=
  assign hvalid text split _ _ (h.alloc hvalid hd parent)

theorem propagateUp (h : e.tree.Defined g) (id : NodeId) : (Edit.propagateUp id e).tree.Defined g :=
  Edit.propagateUp_invariant (P := (Defined · g)) (fun _ id w h => h.store id w) h id

/-! ### Calls -/

theorem fillDefault (h : t.Defined g) (hvalid : g.Valid) (d : DefId) (id : NodeId) :
    (fillDefault d id t).Defined g := by
  rw [Tree.fillDefault]
  cases t.grammar.defaultContent? d with
  | none => exact h
  | some text =>
      dsimp only
      cases (resolve t.grammar d text).result with
      | error fault => exact h
      | ok split => exact assign hvalid text split id ⟨t, []⟩ h

theorem allocFilled (h : t.Defined g) (hvalid : g.Valid) (hd : d < g.size) (parent : Option NodeId) :
    (t.allocFilled parent d).2.Defined g :=
  allocWith hvalid (fun d id _ hs => hs.fillDefault hvalid d id) _ h hd parent

theorem remove (h : t.Defined g) {index : Nat} {change : Change Unit}
    (hok : t.remove n index = .ok change) : change.tree.Defined g := by
  obtain ⟨rule, items, -, -, -, -, rfl⟩ := remove_ok hok
  exact (((h.setBody n _).release _).store (e := ⟨_, []⟩) n _).propagateUp n

variable (h : t.Defined g) (hvalid : g.Valid)
include h hvalid

theorem create {change : Change NodeId} (hok : t.create d = .ok change) : change.tree.Defined g := by
  obtain ⟨hd, created, t₂, halloc, rfl⟩ := create_ok hok
  have hfilled := h.allocFilled hvalid (h.grammar ▸ hd) none
  rwa [halloc] at hfilled

theorem setContent {change : Change Unit} (hok : (t.setContent n text).result = .ok change) :
    change.tree.Defined g := by
  obtain ⟨split, -, -, rfl⟩ := setContent_ok hok
  exact (assign hvalid text split n ⟨t, []⟩ h).propagateUp n

theorem insert {index : Nat} {change : Change NodeId} (hok : t.insert n index text = .ok change) :
    change.tree.Defined g := by
  obtain ⟨rule, items, split, separator, hrule, -, -, -, -, hseparator, item, e₁, s, e₂, hitem, hs,
    rfl⟩ := insert_ok hok
  have hlt : rule.item < g.size := by
    rcases loopRule_ok hrule with ⟨hshape, -⟩ | ⟨d, explicit, hshape, -⟩
    · exact h.reference hvalid (by rw [hshape]; exact List.mem_cons_self)
    · exact h.reference hvalid (by rw [hshape]; exact List.mem_cons_self)
  have hspawn := spawn (e := ⟨t, []⟩) h hvalid hlt text split n
  rw [hitem] at hspawn
  have hspawn' : e₂.tree.Defined g := by
    cases separator with
    | none =>
        obtain ⟨-, rfl⟩ := Prod.mk.inj hs
        exact hspawn
    | some separator =>
        obtain ⟨d, w, split'⟩ := separator
        obtain ⟨-, rfl⟩ := Prod.mk.inj hs
        obtain ⟨⟨explicit, hd⟩, -⟩ := (newSeparator_ok hseparator).2 d w split' rfl
        refine hspawn.spawn hvalid ?_ w split' n
        rcases loopRule_ok hrule with ⟨-, hnone⟩ | ⟨d', explicit', hshape, hsome⟩
        · rw [hnone] at hd
          cases hd
        · rw [hsome] at hd
          cases hd
          exact h.reference hvalid
            (by rw [hshape]; exact List.mem_cons_of_mem _ List.mem_cons_self)
  have hbody := hspawn'.setBody n (insertParts (e₂.tree.node n).body index item s)
  exact (hbody.store (e := ⟨_, e₂.notices⟩) n _).propagateUp n

theorem alternative {index : Nat} {change : Change NodeId}
    (hok : t.alternative n index = .ok change) : change.tree.Defined g := by
  obtain ⟨alternatives, current, -, hbody, ⟨existing, -, rfl⟩ | ⟨-, created, t₂, halloc, rfl⟩⟩ :=
    alternative_ok hok
  · exact h
  · have hpos := h.size_pos hbody (by simp)
    have hfilled := h.allocFilled hvalid (h.alternativeDef hvalid hpos n index) (some n)
    rw [halloc] at hfilled
    exact hfilled.setBody n _

theorem optionalChild {change : Change NodeId} (hok : t.optionalChild n = .ok change) :
    change.tree.Defined g := by
  obtain ⟨present, -, ⟨existing, -, rfl⟩ | ⟨hbody, created, t₂, halloc, rfl⟩⟩ := optionalChild_ok hok
  · exact h
  · have hpos := h.size_pos hbody (by simp)
    have hfilled := h.allocFilled hvalid (h.itemDef hvalid hpos n) (some n)
    rw [halloc] at hfilled
    exact hfilled.setBody n _

/-- **A call keeps it so.** -/
theorem perform {op : Operation} {change : Change Answer} (hok : t.perform op = .ok change) :
    change.tree.Defined g := by
  cases op with
  | create d =>
      obtain ⟨c, hc, -, htree, -⟩ := Change.map_ok hok
      exact htree ▸ h.create hvalid hc
  | setContent n text =>
      obtain ⟨c, hc, -, htree, -⟩ := Change.map_ok hok
      exact htree ▸ h.setContent hvalid hc
  | insert n index text =>
      obtain ⟨c, hc, -, htree, -⟩ := Change.map_ok hok
      exact htree ▸ h.insert hvalid hc
  | push n text =>
      obtain ⟨c, hc, -, htree, -⟩ := Change.map_ok hok
      obtain ⟨items, -, hc⟩ := push_ok hc
      exact htree ▸ h.insert hvalid hc
  | remove n index =>
      obtain ⟨c, hc, -, htree, -⟩ := Change.map_ok hok
      exact htree ▸ h.remove hc
  | alternative n index =>
      obtain ⟨c, hc, -, htree, -⟩ := Change.map_ok hok
      exact htree ▸ h.alternative hvalid hc
  | alternativeOf n d =>
      obtain ⟨c, hc, -, htree, -⟩ := Change.map_ok hok
      obtain ⟨-, index, -, -, hc⟩ := alternativeOf_eq_ok.1 hc
      exact htree ▸ h.alternative hvalid hc
  | optionalChild n =>
      obtain ⟨c, hc, -, htree, -⟩ := Change.map_ok hok
      exact htree ▸ h.optionalChild hvalid hc
  | addListener n =>
      obtain ⟨c, hc, -, htree, -⟩ := Change.map_ok hok
      obtain ⟨node, -, hc⟩ := Except.bind_eq_ok.1 hc
      have hmodify : (t.modify n fun m =>
          { m with listeners := m.listeners ++ [t.nextListener] }).Defined g := h.modify rfl
      rw [← htree, ← Except.ok.inj hc]
      exact ⟨hmodify.grammar, hmodify.lt⟩
  | removeListener n l =>
      obtain ⟨c, hc, -, htree, -⟩ := Change.map_ok hok
      obtain ⟨node, -, hc⟩ := Except.bind_eq_ok.1 hc
      rw [← htree, ← Except.ok.inj hc]
      exact h.modify (f := fun m => { m with listeners := m.listeners.filter (· != l) }) rfl

end Tree.Defined

namespace Session

/-- **Every slot of a tree in use has a definition of the grammar.** -/
theorem defined_slots_run {g : Grammar} (hvalid : g.Valid) (ops : List Operation) :
    (run g ops).tree.Defined g := by
  have hrun : ∀ (ops : List Operation) (s : Session), s.tree.Defined g →
      (ops.foldl Session.step s).tree.Defined g := by
    intro ops
    induction ops with
    | nil => exact fun s hs => hs
    | cons op ops ih =>
        intro s hs
        refine ih _ ?_
        rw [Session.step]
        cases hok : s.tree.perform op with
        | error fault => exact hs
        | ok change => exact hs.perform hvalid hok
  exact hrun ops _ (.empty g)

end Session

end Tessera
