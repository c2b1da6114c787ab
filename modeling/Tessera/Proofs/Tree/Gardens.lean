/-
**Whole trees.**

All occupied slots of a tree belong to branches without a parent, and every other slot is free.  So
the nodes of these branches are exactly the live nodes, and what happens to one branch inside can be
carried over to the whole tree.

Main definitions:

* `Tessera.Tree.Live` — a handle names a node;
* `Tessera.Planted` — the live nodes are those of several branches;
* `Tessera.Garden` — and all of them are in order.

Main results:

* `Tessera.Planted.live_iff` — the live nodes are those of the branches;
* `Tessera.Planted.regrow` — **a branch inside of the tree can be put in the place of another**.
-/

import Tessera.Proofs.Tree.Assignment

set_option autoImplicit false

namespace Tessera

open Branch Tessera.Tree

/-- The handle names a node of the tree. -/
structure Tree.Live (t : Tree) (id : NodeId) : Prop where
  size : id.index < t.slots.size
  occupied : id.index ∉ t.free
  generation : (t.node id).generation = id.generation

/-- The occupied slots are those of branches without a parent. -/
structure Planted (t : Tree) (roots : List Branch) : Prop where
  count : ∀ i, (slotsAll roots).count i + t.free.count i = if i < t.slots.size then 1 else 0
  stands : ∀ b ∈ roots, b.Stands t none
  vacant : ∀ i ∈ t.free, (t.slot i).Vacant

/-- All nodes of a tree are in order. -/
structure Garden (t : Tree) (roots : List Branch) : Prop extends Planted t roots where
  sound : ∀ id ∈ idsAll roots, t.Sound id

variable {t t' : Tree} {parent : Option NodeId} {id m p : NodeId} {roots roots' bs bs' : List Branch}
  {b b' c c' : Branch} {freed : List Nat}

/-- A node of a branch inside is listed as often in the whole. -/
theorem Branch.Inside.count_le (h : c.Inside b) (i : Nat) : c.slots.count i ≤ b.slots.count i := by
  induction h with
  | here => exact Nat.le_refl _
  | @part id parts p hp _ ih =>
      obtain ⟨l, r, rfl⟩ := List.append_of_mem hp
      simp only [slots_fork, slotsAll_append, slotsAll_cons, List.count_cons, List.count_append]
      omega

theorem Branch.count_le_slotsAll (hb : b ∈ bs) (i : Nat) :
    b.slots.count i ≤ (slotsAll bs).count i := by
  obtain ⟨l, r, rfl⟩ := List.append_of_mem hb
  simp only [slotsAll_append, slotsAll_cons, List.count_append]
  omega

theorem Branch.count_slots_perm {ids ids' : List NodeId} (h : ids.Perm ids') (i : Nat) :
    (ids.map NodeId.index).count i = (ids'.map NodeId.index).count i :=
  (h.map NodeId.index).count_eq i

namespace Planted

theorem apart (h : Planted t roots) : t.Apart (slotsAll roots) :=
  fun i => Nat.le_of_eq (h.count i)

theorem generation_of_mem (h : Planted t roots) (hid : id ∈ idsAll roots) :
    (t.node id).generation = id.generation := by
  obtain ⟨b, hb, hid⟩ := mem_idsAll.1 hid
  exact (h.stands b hb).generation_of_mem hid

/-- **The live nodes are those of the branches.** -/
theorem live_iff (h : Planted t roots) : t.Live id ↔ id ∈ idsAll roots := by
  constructor
  · rintro ⟨hsize, hfree, hgeneration⟩
    have hmem : id.index ∈ slotsAll roots := by
      have := h.count id.index
      rw [List.count_eq_zero.2 hfree, if_pos hsize] at this
      exact List.count_pos_iff.1 (by omega)
    obtain ⟨x, hx, hxid⟩ := List.mem_map.1 hmem
    rwa [← Branch.Stands.eq_of_index (h.generation_of_mem hx) hgeneration hxid]
  · intro hid
    have hmem := index_mem_slotsAll hid
    exact ⟨h.apart.lt_size hmem, h.apart.not_free hmem, h.generation_of_mem hid⟩

/-- What a live node holds is live and knows the node as its parent. -/
theorem owned_mem (h : Planted t roots) (hp : p ∈ idsAll roots)
    (hid : id ∈ (t.node p).body.owned) : id ∈ idsAll roots ∧ (t.node id).parent = some p := by
  obtain ⟨b, hb, hp⟩ := mem_idsAll.1 hp
  obtain ⟨hmem, hparent⟩ := (h.stands b hb).owned_mem hp hid
  exact ⟨mem_idsAll.2 ⟨b, hb, hmem⟩, hparent⟩

/-- A live node with a parent is held by it. -/
theorem owner (h : Planted t roots) (hid : id ∈ idsAll roots) (hp : (t.node id).parent = some p) :
    p ∈ idsAll roots ∧ id ∈ (t.node p).body.owned := by
  obtain ⟨b, hb, hid⟩ := mem_idsAll.1 hid
  rcases (h.stands b hb).owner hid with rfl | ⟨q, hq, hparent, howned⟩
  · rw [(h.stands b hb).parent_eq] at hp
    cases hp
  · obtain rfl : q = p := Option.some.inj (hparent.symm.trans hp)
    exact ⟨mem_idsAll.2 ⟨b, hb, hq⟩, howned⟩

/-- A live node without a parent is the root of a branch. -/
theorem root_of_parent (h : Planted t roots) (hid : id ∈ idsAll roots)
    (hp : (t.node id).parent = none) : id ∈ roots.map Branch.root := by
  obtain ⟨b, hb, hid⟩ := mem_idsAll.1 hid
  rcases (h.stands b hb).owner hid with rfl | ⟨q, -, hparent, -⟩
  · exact List.mem_map_of_mem hb
  · rw [hparent] at hp
    cases hp

/-- Two live nodes in one slot are the same. -/
theorem eq_of_index (h : Planted t roots) (hid : id ∈ idsAll roots) (hp : p ∈ idsAll roots)
    (heq : id.index = p.index) : id = p :=
  Branch.Stands.eq_of_index (h.generation_of_mem hid) (h.generation_of_mem hp) heq

/-- At each live node there is a branch. -/
theorem exists_branch (h : Planted t roots) (hid : id ∈ idsAll roots) :
    ∃ b c : Branch, b ∈ roots ∧ c.Inside b ∧ c.root = id ∧ c.Stands t (t.node id).parent := by
  obtain ⟨b, hb, hid⟩ := mem_idsAll.1 hid
  obtain ⟨c, hin, hroot, hstands⟩ := Branch.Inside.exists_of_mem (h.stands b hb) hid
  exact ⟨b, c, hb, hin, hroot, hstands⟩

/-- A branch inside of the tree has each slot once. -/
theorem nodup_of_inside (h : Planted t roots) (hb : b ∈ roots) (hin : c.Inside b) :
    c.slots.Nodup := by
  rw [List.nodup_iff_count_le_one]
  intro i
  have := hin.count_le i
  have := count_le_slotsAll hb i
  have := List.nodup_iff_count_le_one.1 h.apart.nodup i
  omega

/-- No node is a part of itself. -/
theorem ne_of_owned (h : Planted t roots) (hp : p ∈ idsAll roots)
    (hid : id ∈ (t.node p).body.owned) : id ≠ p := by
  rintro rfl
  obtain ⟨b, c, hb, hin, rfl, hstands⟩ := h.exists_branch hp
  have hnodup := h.nodup_of_inside hb hin
  cases hstands with
  | fork _ _ _ howned _ =>
      rw [root_fork, howned] at hid
      rw [slots_fork] at hnodup
      exact (List.nodup_cons.1 hnodup).1 (index_mem_slotsAll (Grove.root_mem hid))

end Planted

namespace Garden

theorem grove (h : Garden t roots) : Grove t none roots :=
  ⟨h.apart, h.stands, h.sound⟩

/-- A branch inside of the tree is in order. -/
theorem grove_of_inside (h : Garden t roots) (hb : b ∈ roots) (hin : c.Inside b)
    (hc : c.Stands t parent) : Grove t parent [c] where
  apart := h.apart.mono fun i => by
    rw [slotsAll_cons, slotsAll_nil, List.append_nil]
    exact Nat.le_trans (hin.count_le i) (count_le_slotsAll hb i)
  stands d hd := List.mem_singleton.1 hd ▸ hc
  sound x hx := h.sound x (mem_idsAll.2 ⟨b, hb, hin.subset (by simpa using hx)⟩)

end Garden

namespace Planted

/-- **A branch inside of the tree can be put in the place of another** with the same root. -/
theorem regrow (h : Planted t roots) (hb : b ∈ roots) (hin : c.Inside b)
    (hc : c.Stands t parent) (hr : t.Rework t' c.slots c'.slots freed) (hc' : c'.Stands t' parent)
    (hroot : c'.root = c.root) :
    ∃ roots', Planted t' roots' ∧ roots'.map Branch.root = roots.map Branch.root ∧
      (idsAll roots' ++ c.ids).Perm (idsAll roots ++ c'.ids) := by
  have houtside : ∀ i ∈ slotsAll roots, i ∉ c.slots → (t.slot i).Stays (t'.slot i) := by
    intro i hi hic
    exact .of_eq (hr.untouched i (h.apart.lt_size hi) hic (h.apart.not_free hi))
  have hnodup : b.slots.Nodup := h.nodup_of_inside hb .here
  obtain ⟨b', hroot', hstands, hperm⟩ := (h.stands b hb).replace hin hroot
    (fun q hq => by rw [← hq.parent_eq, hc.parent_eq]; exact hc') hnodup hr.size_le
    fun i hi => houtside i (mem_slotsAll_iff.2 ⟨b, hb, hi⟩)
  obtain ⟨l, r, rfl⟩ := List.append_of_mem hb
  have hperm' : (idsAll (l ++ b' :: r) ++ c.ids).Perm (idsAll (l ++ b :: r) ++ c'.ids) := by
    simp only [idsAll_append, idsAll_cons, List.append_assoc]
    refine .append_left _ ?_
    calc b'.ids ++ (idsAll r ++ c.ids)
      _ |>.Perm ((b'.ids ++ c.ids) ++ idsAll r) := by
          rw [List.append_assoc]
          exact .append_left _ List.perm_append_comm
      _ |>.Perm ((b.ids ++ c'.ids) ++ idsAll r) := .append_right _ hperm
      _ |>.Perm (b.ids ++ (idsAll r ++ c'.ids)) := by
          rw [List.append_assoc]
          exact .append_left _ List.perm_append_comm
  -- the branches next to the changed one stay as they are
  have hother : ∀ d ∈ l ++ r, d.Stands t' none := by
    intro d hd
    have hmem : d ∈ l ++ b :: r := by
      rcases List.mem_append.1 hd with hd | hd
      · simp [hd]
      · simp [hd]
    refine (h.stands d hmem).congr hr.size_le fun i hi => houtside i ?_ fun hic => ?_
    · exact mem_slotsAll_iff.2 ⟨d, hmem, hi⟩
    · have hcount := List.nodup_iff_count_le_one.1 h.apart.nodup i
      have := count_le_slotsAll hd i
      have := hin.count_le i
      have := List.count_pos_iff.2 hi
      have := List.count_pos_iff.2 hic
      simp only [slotsAll_append, slotsAll_cons, List.count_append] at *
      omega
  refine ⟨l ++ b' :: r, ⟨fun i => ?_, fun d hd => ?_, hr.vacant h.vacant⟩, by simp [hroot'], hperm'⟩
  · have hcount := count_slots_perm hperm' i
    rw [List.map_append, List.map_append, List.count_append, List.count_append] at hcount
    have := hr.count i
    have := h.count i
    have := hr.size_le
    simp only [slotsAll, Branch.slots] at *
    grind
  · rcases (List.mem_append.1 hd).imp_right List.mem_cons.1 with hd | rfl | hd
    · exact hother d (List.mem_append_left _ hd)
    · exact hstands
    · exact hother d (List.mem_append_right _ hd)

end Planted

end Tessera
