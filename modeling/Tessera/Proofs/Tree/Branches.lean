/-
**Branches.**

A node of a tree stands together with everything that it holds, directly or through its parts.  Such
a branch is written down as a value of its own, so that one can speak about all of its nodes, go
through them from the root, and put one branch in the place of another.

Main definitions:

* `Tessera.Branch` — a node with everything below it, as handles;
* `Tessera.Branch.Stands` — the branch is there in a tree;
* `Tessera.Branch.Inside` — a branch of a branch;
* `Tessera.Tree.Below` — what a node holds, directly or through its parts.

Main results:

* `Tessera.Branch.Stands.replace` — **a branch can be put in the place of another**;
* `Tessera.Branch.Stands.below_iff` — the nodes of a branch are those below its root;
* `Tessera.Tree.below_congr` — nodes that keep their parts keep what is below them.
-/

import Mathlib.Data.List.Nodup
import Mathlib.Data.List.Perm.Subperm
import Mathlib.Logic.Relation
import Tessera.Proofs.Tree.Slots

set_option autoImplicit false

namespace Tessera

/-- A node with everything below it, as handles. -/
inductive Branch
  | fork (id : NodeId) (parts : List Branch)

namespace Branch

/-- The root of a branch. -/
def root : Branch → NodeId
  | fork id _ => id

mutual

/-- The nodes of a branch, each before those below it. -/
def ids : Branch → List NodeId
  | fork id parts => id :: idsAll parts

/-- The nodes of several branches. -/
def idsAll : List Branch → List NodeId
  | [] => []
  | b :: bs => b.ids ++ idsAll bs

end

/-- The slots of the nodes of a branch. -/
def slots (b : Branch) : List Nat := b.ids.map NodeId.index

/-- The slots of the nodes of several branches. -/
def slotsAll (bs : List Branch) : List Nat := (idsAll bs).map NodeId.index

variable {b c : Branch} {bs cs : List Branch} {id : NodeId} {parts : List Branch}

@[simp] theorem root_fork : (fork id parts).root = id := rfl

@[simp] theorem idsAll_nil : idsAll [] = [] := rfl

@[simp] theorem idsAll_cons : idsAll (b :: bs) = b.ids ++ idsAll bs := rfl

@[simp] theorem ids_fork : (fork id parts).ids = id :: idsAll parts := rfl

@[simp] theorem idsAll_append : idsAll (bs ++ cs) = idsAll bs ++ idsAll cs := by
  induction bs with
  | nil => rfl
  | cons b bs ih => simp [ih]

@[simp] theorem slotsAll_nil : slotsAll [] = [] := rfl

@[simp] theorem slotsAll_cons : slotsAll (b :: bs) = b.slots ++ slotsAll bs := by
  simp [slotsAll, slots]

@[simp] theorem slots_fork : (fork id parts).slots = id.index :: slotsAll parts := by
  simp [slotsAll, slots]

@[simp] theorem slotsAll_append : slotsAll (bs ++ cs) = slotsAll bs ++ slotsAll cs := by
  simp [slotsAll]

theorem mem_idsAll : id ∈ idsAll bs ↔ ∃ b ∈ bs, id ∈ b.ids := by
  induction bs with
  | nil => simp
  | cons b bs ih => simp [ih]

theorem root_mem_ids (b : Branch) : b.root ∈ b.ids := by
  cases b
  simp

theorem index_mem_slots (h : id ∈ b.ids) : id.index ∈ b.slots := List.mem_map_of_mem h

theorem index_mem_slotsAll (h : id ∈ idsAll bs) : id.index ∈ slotsAll bs := List.mem_map_of_mem h

/-- A part of a list of branches in its place. -/
theorem exists_part (h : id ∈ bs.map Branch.root) : ∃ l b r, bs = l ++ b :: r ∧ b.root = id := by
  obtain ⟨b, hb, rfl⟩ := List.mem_map.1 h
  obtain ⟨l, r, rfl⟩ := List.append_of_mem hb
  exact ⟨l, b, r, rfl, rfl⟩

end Branch

/-! ### Standing branches -/

/-- The node stays in its place, whatever became of its content and its listeners. -/
structure Node.Stays (n n' : Node) : Prop where
  generation : n'.generation = n.generation
  definition : n'.definition = n.definition
  parent : n'.parent = n.parent
  body : n'.body = n.body

theorem Node.Stays.refl (n : Node) : n.Stays n := ⟨rfl, rfl, rfl, rfl⟩

theorem Node.Stays.symm {n n' : Node} (h : n.Stays n') : n'.Stays n :=
  ⟨h.generation.symm, h.definition.symm, h.parent.symm, h.body.symm⟩

theorem Node.Stays.of_eq {n n' : Node} (h : n' = n) : n.Stays n' := h ▸ .refl n

/-- The branch is there in a tree: every node is in its slot and holds exactly the parts of the
branch, and the parts know it as their parent. -/
inductive Branch.Stands (t : Tree) : Option NodeId → Branch → Prop
  | fork {parent : Option NodeId} {id : NodeId} {parts : List Branch}
      (size : id.index < t.slots.size)
      (generation : (t.node id).generation = id.generation)
      (parent_eq : (t.node id).parent = parent)
      (owned : (t.node id).body.owned = parts.map Branch.root)
      (stands : ∀ b ∈ parts, Stands t (some id) b) :
      Stands t parent (.fork id parts)

namespace Branch.Stands

variable {t t' : Tree} {parent : Option NodeId} {b c : Branch} {bs : List Branch} {id p : NodeId}

theorem parent_eq (h : b.Stands t parent) : (t.node b.root).parent = parent := by
  cases h
  assumption

/-- Each node of a branch is in its slot. -/
theorem generation_of_mem (h : b.Stands t parent) (hid : id ∈ b.ids) :
    (t.node id).generation = id.generation := by
  induction h with
  | fork _ hgeneration _ _ _ ih =>
      rcases List.mem_cons.1 hid with rfl | hid
      · exact hgeneration
      · obtain ⟨c, hc, hid⟩ := Branch.mem_idsAll.1 hid
        exact ih c hc hid

/-- What a node of a branch holds belongs to the branch and has the node as its parent. -/
theorem owned_mem (h : b.Stands t parent) (hp : p ∈ b.ids) (hid : id ∈ (t.node p).body.owned) :
    id ∈ b.ids ∧ (t.node id).parent = some p := by
  induction h with
  | fork _ _ _ howned hstands ih =>
      rcases List.mem_cons.1 hp with rfl | hp
      · rw [howned] at hid
        obtain ⟨c, hc, rfl⟩ := List.mem_map.1 hid
        exact ⟨List.mem_cons_of_mem _ (Branch.mem_idsAll.2 ⟨c, hc, c.root_mem_ids⟩),
          (hstands c hc).parent_eq⟩
      · obtain ⟨c, hc, hp⟩ := Branch.mem_idsAll.1 hp
        obtain ⟨hmem, hparent⟩ := ih c hc hp
        exact ⟨List.mem_cons_of_mem _ (Branch.mem_idsAll.2 ⟨c, hc, hmem⟩), hparent⟩

/-- A node of a branch is its root, or it is held by another node of the branch. -/
theorem owner (h : b.Stands t parent) (hid : id ∈ b.ids) :
    id = b.root ∨ ∃ p ∈ b.ids, (t.node id).parent = some p ∧ id ∈ (t.node p).body.owned := by
  induction h with
  | @fork _ root parts _ _ _ howned hstands ih =>
      rcases List.mem_cons.1 hid with rfl | hid
      · exact .inl rfl
      obtain ⟨c, hc, hid⟩ := Branch.mem_idsAll.1 hid
      rcases ih c hc hid with rfl | ⟨p, hp, hparent⟩
      · refine .inr ⟨root, List.mem_cons_self, (hstands c hc).parent_eq, ?_⟩
        rw [howned]
        exact List.mem_map_of_mem hc
      · exact .inr ⟨p, List.mem_cons_of_mem _ (Branch.mem_idsAll.2 ⟨c, hc, hp⟩), hparent⟩

/-- A branch stands where all its nodes stay in their places. -/
theorem congr (h : b.Stands t parent) (hsize : t.slots.size ≤ t'.slots.size)
    (hslots : ∀ i ∈ b.slots, (t.slot i).Stays (t'.slot i)) : b.Stands t' parent := by
  induction h with
  | @fork _ id parts hid hgeneration hparent howned _ ih =>
      have hroot := hslots id.index (by simp)
      refine .fork (Nat.lt_of_lt_of_le hid hsize) ?_ ?_ ?_ ?_
      · rw [Tree.node_eq_slot, hroot.generation]
        exact hgeneration
      · rw [Tree.node_eq_slot, hroot.parent]
        exact hparent
      · rw [Tree.node_eq_slot, hroot.body]
        exact howned
      · intro c hc
        refine ih c hc fun i hi => hslots i ?_
        obtain ⟨x, hx, rfl⟩ := List.mem_map.1 hi
        exact Branch.index_mem_slots (List.mem_cons_of_mem _ (Branch.mem_idsAll.2 ⟨c, hc, hx⟩))

/-- Two handles of one slot that both stand in a tree are the same. -/
theorem eq_of_index (h : (t.node id).generation = id.generation)
    (hp : (t.node p).generation = p.generation) (heq : id.index = p.index) : id = p := by
  obtain ⟨i, g⟩ := id
  obtain ⟨j, k⟩ := p
  obtain rfl : i = j := heq
  have hgk : g = k := h.symm.trans hp
  rw [hgk]

end Branch.Stands

/-- A slot that a step does not touch holds the same node afterwards. -/
theorem Tree.Rework.slot_eq {t t' : Tree} {R S S' freed : List Nat} {i : Nat}
    (h : Tree.Rework t t' S S' freed) (hap : t.Apart (R ++ S)) (hi : i ∈ R) :
    t'.slot i = t.slot i := by
  have hmem : i ∈ R ++ S := List.mem_append_left _ hi
  refine h.untouched i (hap.lt_size hmem) ?_ (hap.not_free hmem)
  intro hin
  exact List.disjoint_of_nodup_append hap.nodup hi hin

/-- There are at least as many slots as a branch has nodes. -/
theorem Tree.Apart.length_le {t : Tree} {S : List Nat} (h : t.Apart S) :
    S.length ≤ t.slots.size := by
  have hsub : S ⊆ List.range t.slots.size := fun i hi => List.mem_range.2 (h.lt_size hi)
  simpa using (List.subperm_of_subset h.nodup hsub).length_le

/-! ### Branches inside of branches -/

/-- A branch of a branch. -/
inductive Branch.Inside (c : Branch) : Branch → Prop
  | here : Inside c c
  | part {id : NodeId} {parts : List Branch} {b : Branch} (hb : b ∈ parts) (h : Inside c b) :
      Inside c (.fork id parts)

namespace Branch.Inside

variable {b c : Branch} {id : NodeId}

/-- The nodes of a branch inside belong to the branch. -/
theorem subset (h : c.Inside b) (hid : id ∈ c.ids) : id ∈ b.ids := by
  induction h with
  | here => exact hid
  | part hb _ ih => exact List.mem_cons_of_mem _ (Branch.mem_idsAll.2 ⟨_, hb, ih⟩)

/-- At each of its nodes a branch that stands has a branch that stands. -/
theorem exists_of_mem {t : Tree} {parent : Option NodeId} (h : b.Stands t parent)
    (hid : id ∈ b.ids) : ∃ c : Branch, c.Inside b ∧ c.root = id ∧ c.Stands t (t.node id).parent := by
  induction h with
  | @fork parent root parts hsize hgeneration hparent howned hstands ih =>
      rcases List.mem_cons.1 hid with rfl | hid
      · refine ⟨_, .here, rfl, ?_⟩
        rw [hparent]
        exact .fork hsize hgeneration hparent howned hstands
      · obtain ⟨d, hd, hid⟩ := Branch.mem_idsAll.1 hid
        obtain ⟨c, hc, hcid, hcstands⟩ := ih d hd hid
        exact ⟨c, .part hd hc, hcid, hcstands⟩

end Branch.Inside

namespace Branch.Stands

variable {t t' : Tree} {parent : Option NodeId} {b c c' : Branch} {id : NodeId}

/-- **A branch can be put in the place of another** with the same root: what surrounds it still
stands when nothing else has moved. -/
theorem replace (h : b.Stands t parent) (hin : c.Inside b) (hid : c'.root = c.root)
    (hc' : ∀ parent, c.Stands t parent → c'.Stands t' parent) (hnodup : b.slots.Nodup)
    (hsize : t.slots.size ≤ t'.slots.size)
    (hslots : ∀ i ∈ b.slots, i ∉ c.slots → (t.slot i).Stays (t'.slot i)) :
    ∃ b' : Branch, b'.root = b.root ∧ b'.Stands t' parent ∧ (b'.ids ++ c.ids).Perm (b.ids ++ c'.ids) := by
  induction hin generalizing parent with
  | here => exact ⟨c', hid, hc' parent h, List.perm_append_comm⟩
  | @part root parts p hp hin ih =>
      obtain ⟨l, r, rfl⟩ := List.append_of_mem hp
      cases h with
      | fork hroot hgeneration hparent howned hstands =>
      simp only [slots_fork, slotsAll_append, slotsAll_cons] at hnodup
      have hsub : ∀ i ∈ c.slots, i ∈ p.slots := by
        intro i hi
        obtain ⟨x, hx, rfl⟩ := List.mem_map.1 hi
        exact Branch.index_mem_slots (hin.subset hx)
      have hpnodup : p.slots.Nodup := by grind
      obtain ⟨p', hp'id, hp'stands, hperm⟩ := ih (hstands p (by simp)) hpnodup fun i hi => by
        refine hslots i ?_
        simp only [slots_fork, slotsAll_append, slotsAll_cons, List.mem_cons, List.mem_append]
        exact .inr (.inr (.inl hi))
      -- the root and the other parts are outside of the branch that is replaced
      have hrootStays : (t.slot root.index).Stays (t'.slot root.index) := by
        refine hslots root.index (by simp) fun hi => ?_
        have := hsub _ hi
        grind
      have hother : ∀ q ∈ l ++ r, q.Stands t' (some root) := by
        intro q hq
        have hqmem : q ∈ l ++ p :: r := by grind
        refine (hstands q hqmem).congr hsize fun i hi => ?_
        have hiq : i ∈ slotsAll l ∨ i ∈ slotsAll r := by
          obtain ⟨x, hx, rfl⟩ := List.mem_map.1 hi
          rcases List.mem_append.1 hq with hq | hq
          · exact .inl (Branch.index_mem_slotsAll (Branch.mem_idsAll.2 ⟨q, hq, hx⟩))
          · exact .inr (Branch.index_mem_slotsAll (Branch.mem_idsAll.2 ⟨q, hq, hx⟩))
        refine hslots i ?_ fun hic => ?_
        · simp only [slots_fork, slotsAll_append, slotsAll_cons, List.mem_cons, List.mem_append]
          grind
        · have := hsub i hic
          grind
      refine ⟨.fork root (l ++ p' :: r), rfl, .fork (Nat.lt_of_lt_of_le hroot hsize) ?_ ?_ ?_ ?_, ?_⟩
      · rw [Tree.node_eq_slot, hrootStays.generation]
        exact hgeneration
      · rw [Tree.node_eq_slot, hrootStays.parent]
        exact hparent
      · rw [Tree.node_eq_slot, hrootStays.body]
        rw [Tree.node_eq_slot] at howned
        simpa [hp'id] using howned
      · intro q hq
        rcases List.mem_append.1 hq with hq | hq
        · exact hother q (List.mem_append_left _ hq)
        · rcases List.mem_cons.1 hq with rfl | hq
          · exact hp'stands
          · exact hother q (List.mem_append_right _ hq)
      · simp only [ids_fork, idsAll_append, idsAll_cons, List.cons_append, List.append_assoc]
        refine .cons _ (.append_left _ ?_)
        calc p'.ids ++ (idsAll r ++ c.ids)
          _ |>.Perm ((p'.ids ++ c.ids) ++ idsAll r) := by
              rw [List.append_assoc]
              exact .append_left _ List.perm_append_comm
          _ |>.Perm ((p.ids ++ c'.ids) ++ idsAll r) := .append_right _ hperm
          _ |>.Perm (p.ids ++ (idsAll r ++ c'.ids)) := by
              rw [List.append_assoc]
              exact .append_left _ List.perm_append_comm

end Branch.Stands

/-! ### Below a node -/

namespace Tree

/-- What a node holds, directly or through its parts, and the node itself. -/
def Below (t : Tree) : NodeId → NodeId → Prop :=
  Relation.ReflTransGen fun p c => c ∈ (t.node p).body.owned

/-- What contributes to the content of a node, directly or through its parts, and the node itself.
-/
def ActiveBelow (t : Tree) : NodeId → NodeId → Prop :=
  Relation.ReflTransGen fun p c => c ∈ (t.node p).body.active

/-- What is below a node is the same as long as the nodes there keep their parts. -/
theorem below_congr {t t' : Tree} {n x : NodeId}
    (h : ∀ y, t.Below n y → (t'.node y).body = (t.node y).body) : t'.Below n x ↔ t.Below n x := by
  constructor
  · intro hx
    induction hx with
    | refl => exact .refl
    | tail _ hz ih =>
        rw [h _ ih] at hz
        exact ih.tail hz
  · intro hx
    induction hx with
    | refl => exact .refl
    | tail hy hz ih =>
        rw [← h _ hy] at hz
        exact ih.tail hz

end Tree

namespace Branch.Stands

variable {t : Tree} {parent : Option NodeId} {b : Branch} {id : NodeId}

/-- The nodes of a branch are those below its root. -/
theorem below_iff (h : b.Stands t parent) : t.Below b.root id ↔ id ∈ b.ids := by
  constructor
  · intro hbelow
    induction hbelow with
    | refl => exact b.root_mem_ids
    | tail _ hid ih => exact (h.owned_mem ih hid).1
  · intro hid
    induction h with
    | @fork _ root parts _ _ _ howned _ ih =>
        rcases List.mem_cons.1 hid with rfl | hid
        · exact .refl
        · obtain ⟨c, hc, hid⟩ := Branch.mem_idsAll.1 hid
          refine .head (b := c.root) ?_ (ih c hc hid)
          rw [Branch.root_fork, howned]
          exact List.mem_map_of_mem hc

end Branch.Stands

end Tessera
