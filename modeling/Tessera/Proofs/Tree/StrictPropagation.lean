/-
**Changes travel up without faults.**

A change that travels up gives contents to nodes and leaves everything else as it is.  So whether it
comes upon a slot or a part that is not there does not depend on contents: it is enough that the nodes
stand in their slots and have the parts that their definitions ask for, at any point on the way.

Main definitions:

* `Tessera.Trellis` — a tree in order, contents aside.

Main results:

* `Tessera.Trellis.retold` — contents come and go without a change of the rest;
* `Tessera.Strict.propagateUp_eq` — **a change is carried up without a fault**.
-/

import Tessera.Proofs.Tree.StrictAssignment

set_option autoImplicit false

namespace Tessera

open Branch Tessera.Tree

variable {t t' : Tree} {n p c : NodeId} {ids : List NodeId} {roots : List Branch} {e : Edit}
  {fuel : Nat} {parent : Option NodeId} {b : Branch}

/-! ### Contents aside -/

/-- The nodes of a tree stand in their slots and have the parts that their definitions ask for,
whatever their contents are. -/
structure Trellis (t : Tree) (roots : List Branch) : Prop extends Planted t roots where
  formed : ∀ x ∈ idsAll roots, t.Formed x

theorem Garden.trellis (h : Garden t roots) : Trellis t roots :=
  ⟨h.toPlanted, fun x hx => (h.sound x hx).formed⟩

theorem Tree.Retold.symm (h : t.Retold t' ids) : t'.Retold t ids where
  grammar := h.grammar.symm
  nextListener := h.nextListener.symm
  size := h.size.symm
  free := h.free.symm
  stays i := (h.stays i).symm
  listeners i := (h.listeners i).symm
  same i hi := (h.same i hi).symm

/-- A node takes a content, and nothing else changes, even where there is no such slot. -/
theorem Edit.retold_store (e : Edit) (n : NodeId) (w : Text) :
    ∃ ids, e.tree.Retold (e.store n w).tree ids := by
  by_cases hsize : n.index < e.tree.slots.size
  · exact ⟨_, (store_retold hsize w).1⟩
  · have hsame : (e.store n w).tree = e.tree := by
      simp [Edit.store, Tree.modify, Array.setIfInBounds_eq_of_size_le (Nat.le_of_not_lt hsize)]
    exact ⟨[], hsame ▸ .refl _⟩

/-- Carrying a change up gives contents to nodes, and nothing else changes. -/
theorem Edit.retold_propagateUp (n : NodeId) (e : Edit) :
    ∃ ids, e.tree.Retold (Edit.propagateUp n e).tree ids := by
  refine propagateUp_invariant (P := fun t => ∃ ids, e.tree.Retold t ids) ?_ ⟨[], .refl _⟩ n
  rintro e' p w ⟨ids, hids⟩
  obtain ⟨ids', hstore⟩ := e'.retold_store p w
  exact ⟨_, hids.trans hstore⟩

namespace Trellis

/-- Contents come and go without a change of the rest. -/
theorem retold (h : Trellis t roots) (hr : t.Retold t' ids) : Trellis t' roots :=
  ⟨hr.planted h.toPlanted, fun x hx => (h.formed x hx).congr hr.grammar (hr.stays _)
    fun c _ => (hr.stays c.index).definition⟩

/-- What is in order after a node took a content was in order before. -/
theorem of_store {w : Text} (h : Trellis (e.store n w).tree roots) : Trellis e.tree roots :=
  have ⟨_, hr⟩ := e.retold_store n w
  h.retold hr.symm

/-- What is in order after a change was carried up was in order before. -/
theorem of_propagateUp (h : Trellis (Edit.propagateUp n e).tree roots) : Trellis e.tree roots :=
  have ⟨_, hr⟩ := Edit.retold_propagateUp n e
  h.retold hr.symm

theorem lt_size (h : Trellis t roots) (hn : n ∈ idsAll roots) : n.index < t.slots.size :=
  h.apart.lt_size (index_mem_slotsAll hn)

theorem active_lt_size (h : Trellis t roots) (hn : n ∈ idsAll roots)
    (hc : c ∈ (t.node n).body.active) : c.index < t.slots.size :=
  h.lt_size (h.owned_mem hn (Body.owned_of_active hc)).1

end Trellis

namespace Strict

/-! ### Contents of parts -/

theorem composed_eq (h : Trellis t roots) (hn : n ∈ idsAll roots) :
    composed t n = some (Edit.composed t n) := by
  rw [composed, node_eq (h.lt_size hn)]
  simp only [Option.bind_eq_bind, Option.bind_some, active_eq (h.formed n hn),
    mapM_eq fun c hc => node_eq (h.active_lt_size hn hc)]
  rw [Edit.composed, List.flatMap_map]
  rfl

/-- The content of a node is composed of those of its parts without a fault. -/
theorem recompose_eq (h : Trellis e.tree roots) (hn : n ∈ idsAll roots) :
    recompose e n = some (e.recompose n) := by
  rw [recompose, composed_eq h hn]
  rfl

/-! ### Active parents -/

theorem activeParent_of_parent (hsize : n.index < t.slots.size) (hp : (t.node n).parent = none) :
    activeParent t n = some (t.activeParent? n) := by
  rw [activeParent, node_eq hsize, Tree.activeParent?, hp]
  simp only [Option.bind_eq_bind, Option.bind_some, hp]
  rfl

theorem activeParent_eq (h : Trellis t roots) (hn : n ∈ idsAll roots) :
    activeParent t n = some (t.activeParent? n) := by
  cases hp : (t.node n).parent with
  | none => exact activeParent_of_parent (h.lt_size hn) hp
  | some p =>
      obtain ⟨hpmem, -⟩ := h.owner hn hp
      rw [activeParent, node_eq (h.lt_size hn), Tree.activeParent?, hp]
      simp only [Option.bind_eq_bind, Option.bind_some, hp, node_eq (h.lt_size hpmem),
        dependsOn_eq (h.formed p hpmem), Option.filter_some]
      rfl

/-! ### The way up -/

/-- There is no room for a way up that is longer than the tree has slots. -/
theorem propagate_eq (h : Trellis e.tree roots) (hn : n ∈ idsAll roots)
    (hc : b.Stands e.tree parent) (hroot : b.root = n)
    (hfuel : e.tree.slots.size < fuel + b.ids.length) :
    propagate fuel n e = some (Edit.propagate fuel n e) := by
  induction fuel generalizing e n b parent with
  | zero =>
      -- the slots of a branch are different from each other, so it is no larger than the tree
      exfalso
      obtain ⟨a, d, ha, hin, hdroot, hd⟩ := h.exists_branch hn
      obtain rfl := hd.unique hc (hdroot.trans hroot.symm)
      have hle : e.tree.Apart d.slots := h.apart.mono fun i =>
        Nat.le_trans (hin.count_le i) (count_le_slotsAll ha i)
      have := hle.length_le
      simp only [Branch.slots, List.length_map] at this
      omega
  | succ fuel ih =>
      have hformed : ∀ p, (e.tree.node n).parent = some p → e.tree.Formed p :=
        fun p hp => h.formed p (h.owner hn hp).1
      rw [propagate, Edit.propagate, activeParent_eq h hn]
      simp only [Option.bind_eq_bind, Option.bind_some]
      cases hactive : e.tree.activeParent? n with
      | none => rfl
      | some p =>
          obtain ⟨hp, -⟩ := (activeParent?_eq_some hformed).1 hactive
          obtain ⟨hpmem, -⟩ := h.owner hn hp
          simp only [node_eq (h.lt_size hpmem), Option.bind_some]
          split
          · rfl
          · -- the branch at the parent is larger, so less fuel is enough
            obtain ⟨ids, hr⟩ := e.retold_store p (Edit.composed e.tree p)
            obtain ⟨d, hdroot, hd, hlt, -⟩ := h.length_lt hn hc hroot hp
            simp only [recompose_eq h hpmem, Option.bind_some]
            have hsize : (e.recompose p).tree.slots.size = e.tree.slots.size := hr.size
            exact ih (h.retold hr) hpmem
              (hd.congr (Nat.le_of_eq hr.size.symm) fun i _ => hr.stays i) hdroot (by omega)

/-- **A change is carried up without a fault**, when the tree is in order afterwards. -/
theorem propagateUp_eq (h : Trellis (Edit.propagateUp n e).tree roots) (hn : n ∈ idsAll roots) :
    propagateUp n e = some (Edit.propagateUp n e) := by
  have h := h.of_propagateUp
  obtain ⟨b, c, hb, hin, hroot, hc⟩ := h.exists_branch hn
  exact propagate_eq h hn hc hroot (by omega)

/-- A change of a node without a parent stays there. -/
theorem propagateUp_of_parent (hsize : n.index < e.tree.slots.size)
    (hp : (e.tree.node n).parent = none) : propagateUp n e = some (Edit.propagateUp n e) := by
  have hactive := activeParent_of_parent hsize hp
  rw [Edit.propagateUp_of_parent hp, propagateUp, propagate, hactive, Tree.activeParent?, hp]
  rfl

end Strict

end Tessera
