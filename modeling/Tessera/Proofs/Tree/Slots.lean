/-
**Slots and what happens to them.**

An operation on a part of a tree touches the slots of that part, takes free slots for new nodes and
gives slots back.  Which slots it may touch, which ones it leaves occupied and which ones were freed
on the way is written down once, as a relation between the tree before and the tree after; everything
else about the tree stays as it is.

Main definitions:

* `Tessera.Tree.slot` — what stands in a slot;
* `Tessera.Tree.Apart` — slots that are occupied and different from each other;
* `Tessera.Tree.Rework` — the nodes in some slots were replaced by nodes in other slots.

Main results:

* `Tessera.Tree.Rework.trans` — one step after another;
* `Tessera.Tree.Rework.within` — **a step inside of a larger part leaves the rest of it alone**;
* `Tessera.Tree.occupy_rework`, `Tessera.Tree.vacate_rework`, `Tessera.Tree.modify_rework` — the steps
  that operations consist of.
-/

import Mathlib.Data.List.Nodup
import Tessera.Tree.Basic

set_option autoImplicit false

namespace Tessera

/-! ### Nodes that stay -/

/-- The node is the same one, whatever became of its content and its parts. -/
structure Node.Persists (n n' : Node) : Prop where
  definition : n'.definition = n.definition
  parent : n'.parent = n.parent
  listeners : n'.listeners = n.listeners

theorem Node.Persists.refl (n : Node) : n.Persists n := ⟨rfl, rfl, rfl⟩

theorem Node.Persists.trans {n n' n'' : Node} (h : n.Persists n') (h' : n'.Persists n'') :
    n.Persists n'' :=
  ⟨h'.definition.trans h.definition, h'.parent.trans h.parent, h'.listeners.trans h.listeners⟩

/-- What is left of a node in a free slot. -/
structure Node.Vacant (n : Node) : Prop where
  body : n.body = .leaf
  parent : n.parent = none

namespace Tree

variable {t t' t'' : Tree} {id : NodeId} {i : Nat}

/-! ### Single slots -/

/-- What stands in a slot. -/
def slot (t : Tree) (i : Nat) : Node := t.slots.getD i default

theorem node_eq_slot (t : Tree) (id : NodeId) : t.node id = t.slot id.index := rfl

theorem slot_of_size_le (h : t.slots.size ≤ i) : t.slot i = default := by
  rw [slot, Array.getD_eq_getD_getElem?, Array.getElem?_eq_none h, Option.getD_none]

/-- The node behind a handle is what stands in its slot, when the generations agree. -/
theorem lookup?_eq_some {n : Node} : t.lookup? id = some n ↔
    id.index < t.slots.size ∧ (t.node id).generation = id.generation ∧ n = t.node id := by
  by_cases hsize : id.index < t.slots.size
  · simp only [lookup?, node, Array.getD_eq_getD_getElem?, Array.getElem?_eq_getElem hsize,
      Option.getD_some, hsize, true_and]
    split
    · next hgeneration => simp [hgeneration, eq_comm]
    · next hgeneration => simp [hgeneration]
  · simp [lookup?, hsize]

@[simp] theorem size_modify (t : Tree) (id : NodeId) (f : Node → Node) :
    (t.modify id f).slots.size = t.slots.size := by
  simp [modify]

theorem slot_modify_self (h : id.index < t.slots.size) (f : Node → Node) :
    (t.modify id f).slot id.index = f (t.slot id.index) := by
  simp [modify, slot, node, Array.getD_eq_getD_getElem?, h]

theorem slot_modify_of_ne (h : i ≠ id.index) (f : Node → Node) :
    (t.modify id f).slot i = t.slot i := by
  simp [modify, slot, Array.getD_eq_getD_getElem?, Array.getElem?_setIfInBounds_ne h.symm]

theorem slot_vacate_self (h : id.index < t.slots.size) :
    (t.vacate id).slot id.index =
      { generation := (t.slot id.index).generation + 1
        definition := (t.slot id.index).definition
        content := none
        parent := none
        body := .leaf
        listeners := [] } := by
  simp [vacate, modify, slot, node, Array.getD_eq_getD_getElem?, h]

theorem slot_vacate_of_ne (h : i ≠ id.index) : (t.vacate id).slot i = t.slot i := by
  simp [vacate, modify, slot, Array.getD_eq_getD_getElem?, Array.getElem?_setIfInBounds_ne h.symm]

/-! ### Occupied slots -/

/-- The slots are occupied and different from each other, and no slot is free twice. -/
def Apart (t : Tree) (S : List Nat) : Prop :=
  ∀ i, S.count i + t.free.count i ≤ if i < t.slots.size then 1 else 0

namespace Apart

variable {S S' : List Nat}

theorem mono (h : t.Apart S) (hle : ∀ i, S'.count i ≤ S.count i) : t.Apart S' :=
  fun i => Nat.le_trans (Nat.add_le_add_right (hle i) _) (h i)

theorem lt_size (h : t.Apart S) (hi : i ∈ S) : i < t.slots.size := by
  have := h i
  have := List.count_pos_iff.2 hi
  grind

theorem not_free (h : t.Apart S) (hi : i ∈ S) : i ∉ t.free := by
  intro hfree
  have := h i
  have := List.count_pos_iff.2 hi
  have := List.count_pos_iff.2 hfree
  grind

theorem free_lt_size (h : t.Apart S) (hi : i ∈ t.free) : i < t.slots.size := by
  have := h i
  have := List.count_pos_iff.2 hi
  grind

theorem nodup (h : t.Apart S) : S.Nodup := by
  rw [List.nodup_iff_count_le_one]
  intro i
  have := h i
  grind

end Apart

/-! ### Rework -/

/-- The nodes in the slots `before` were replaced by nodes in the slots `after`; the slots `freed`
were given back on the way.  All other occupied slots stay as they are, and so does a node of
`before` whose slot was never given back, up to its content and its parts. -/
structure Rework (t t' : Tree) (before after freed : List Nat) : Prop where
  grammar : t'.grammar = t.grammar
  nextListener : t'.nextListener = t.nextListener
  size_le : t.slots.size ≤ t'.slots.size
  /-- Every slot is used as often as before, and new slots are used once. -/
  count : ∀ i, after.count i + t'.free.count i =
    before.count i + t.free.count i +
      if t.slots.size ≤ i ∧ i < t'.slots.size then 1 else 0
  untouched : ∀ i < t.slots.size, i ∉ before → i ∉ t.free → t'.slot i = t.slot i
  persists : ∀ i < t.slots.size, i ∉ t.free → i ∉ freed → (t.slot i).Persists (t'.slot i)
  /-- The generation of a slot counts how often it was given back. -/
  generation : ∀ i, (t'.slot i).generation =
    (t.slot i).generation + UInt32.ofNat (freed.count i)
  freed_of_free : ∀ i ∈ t'.free, i ∈ t.free ∨ i ∈ freed
  freed_from : ∀ i ∈ freed, i ∈ before ∨ i ∈ t.free ∨ t.slots.size ≤ i
  /-- As long as nothing is given back, new slots are used only after all free ones. -/
  reused : freed = [] → t'.slots.size = t.slots.size ∨ t'.free = []
  /-- A new node has no listeners. -/
  unheard : ∀ i ∈ after, i ∈ freed ∨ i ∈ t.free ∨ t.slots.size ≤ i →
    (t'.slot i).listeners = []
  fewer : ∀ i, (t'.slot i).listeners.Sublist (t.slot i).listeners
  vacant : (∀ i ∈ t.free, (t.slot i).Vacant) → ∀ i ∈ t'.free, (t'.slot i).Vacant

namespace Rework

variable {before middle after freed freed' R S S' : List Nat}

/-- Nothing happens. -/
theorem refl (t : Tree) : Rework t t [] [] [] where
  grammar := rfl
  nextListener := rfl
  size_le := Nat.le_refl _
  count := by grind
  untouched _ _ _ _ := rfl
  persists _ _ _ _ := .refl _
  generation i := by simp
  freed_of_free _ hi := .inl hi
  freed_from _ hi := by simp at hi
  reused _ := .inl rfl
  unheard _ hi := by simp at hi
  fewer _ := .refl _
  vacant h := h

/-- One step after another. -/
theorem trans (h : Rework t t' before middle freed) (h' : Rework t' t'' middle after freed') :
    Rework t t'' before after (freed ++ freed') where
  grammar := h'.grammar.trans h.grammar
  nextListener := h'.nextListener.trans h.nextListener
  size_le := Nat.le_trans h.size_le h'.size_le
  count i := by grind [h.size_le, h'.size_le, h.count i, h'.count i]
  untouched i hi hbefore hfree := by
    -- a slot that is neither touched nor free is not touched or freed by the first step
    have hcount := h.count i
    have hmiddle : i ∉ middle := by grind [List.count_eq_zero]
    have hfree' : i ∉ t'.free := by grind [List.count_eq_zero]
    rw [h'.untouched i (Nat.lt_of_lt_of_le hi h.size_le) hmiddle hfree', h.untouched i hi hbefore hfree]
  persists i hi hfree hfreed := by
    have hfree' : i ∉ t'.free := by
      intro hin
      rcases h.freed_of_free i hin with hin | hin
      · exact hfree hin
      · exact hfreed (List.mem_append_left _ hin)
    have hfirst := h.persists i hi hfree fun hin => hfreed (List.mem_append_left _ hin)
    exact hfirst.trans (h'.persists i (Nat.lt_of_lt_of_le hi h.size_le) hfree'
      fun hin => hfreed (List.mem_append_right _ hin))
  generation i := by
    rw [h'.generation, h.generation, List.count_append, UInt32.ofNat_add, UInt32.add_assoc]
  freed_of_free i hi := by
    rcases h'.freed_of_free i hi with hi | hi
    · rcases h.freed_of_free i hi with hi | hi
      · exact .inl hi
      · exact .inr (List.mem_append_left _ hi)
    · exact .inr (List.mem_append_right _ hi)
  freed_from i hi := by
    rcases List.mem_append.1 hi with hi | hi
    · exact h.freed_from i hi
    · have hcount := h.count i
      have := h'.freed_from i hi
      have := h.size_le
      grind [List.count_eq_zero]
  reused hnone := by
    obtain ⟨rfl, rfl⟩ := List.append_eq_nil_iff.1 hnone
    rcases h'.reused rfl with hsize | hfree
    · rcases h.reused rfl with hsize' | hfree
      · exact .inl (hsize.trans hsize')
      · -- what is free in the end was free before
        refine .inr (List.eq_nil_iff_forall_not_mem.2 fun i hi => ?_)
        have := h'.freed_of_free i hi
        simp [hfree] at this
    · exact .inr hfree
  unheard i hi hnew := by
    by_cases hlast : i ∈ freed' ∨ i ∈ t'.free ∨ t'.slots.size ≤ i
    · exact h'.unheard i hi hlast
    · -- the second step leaves the node in its slot, so it is one of the first step
      have hfreed' : i ∉ freed' := fun hin => hlast (.inl hin)
      have hfree' : i ∉ t'.free := fun hin => hlast (.inr (.inl hin))
      have hsize' : i < t'.slots.size := by omega
      have hcount' := h'.count i
      have hmiddle : i ∈ middle := by grind [List.count_eq_zero]
      rw [(h'.persists i hsize' hfree' hfreed').listeners]
      refine h.unheard i hmiddle ?_
      rcases hnew with hin | hin
      · exact .inl ((List.mem_append.1 hin).resolve_right hfreed')
      · exact .inr hin
  fewer i := (h'.fewer i).trans (h.fewer i)
  vacant hvacant := h'.vacant (h.vacant hvacant)

/-- A node with listeners is not new: it was there before, in the same slot. -/
theorem heard (h : Rework t t' before after freed) (hi : i ∈ after)
    (hheard : (t'.slot i).listeners ≠ []) :
    i ∈ before ∧ i ∉ freed ∧ i ∉ t.free ∧ i < t.slots.size := by
  have hnew : ¬ (i ∈ freed ∨ i ∈ t.free ∨ t.slots.size ≤ i) := fun hnew => hheard (h.unheard i hi hnew)
  have hcount := h.count i
  have hafter := List.count_pos_iff.2 hi
  refine ⟨?_, fun hin => hnew (.inl hin), fun hin => hnew (.inr (.inl hin)), by omega⟩
  grind [List.count_eq_zero]

/-- Occupied slots stay apart from what was replaced next to them. -/
theorem apart (h : Rework t t' S S' freed) (hap : t.Apart before)
    (hbefore : ∀ i, before.count i = R.count i + S.count i)
    (hafter : ∀ i, after.count i = R.count i + S'.count i) : t'.Apart after := by
  intro i
  have := h.count i
  have := hap i
  have := hbefore i
  have := hafter i
  have := h.size_le
  grind

/-- **A step inside of a larger part leaves the rest of it alone.** -/
theorem within (h : Rework t t' S S' freed) (hap : t.Apart before)
    (hbefore : ∀ i, before.count i = R.count i + S.count i)
    (hafter : ∀ i, after.count i = R.count i + S'.count i) : Rework t t' before after freed where
  grammar := h.grammar
  nextListener := h.nextListener
  size_le := h.size_le
  count i := by grind [h.count i, hbefore i, hafter i]
  untouched i hi hin hfree := by
    refine h.untouched i hi ?_ hfree
    have := hbefore i
    grind [List.count_eq_zero]
  persists := h.persists
  generation := h.generation
  freed_of_free := h.freed_of_free
  freed_from i hi := by
    have := h.freed_from i hi
    have := hbefore i
    grind [List.count_eq_zero]
  reused := h.reused
  unheard i hi hnew := by
    by_cases hin : i ∈ S'
    · exact h.unheard i hin hnew
    · -- a slot of the rest is occupied and not touched, so it is not new
      exfalso
      have := hafter i
      have := hbefore i
      have := hap i
      have := h.freed_from i
      grind [List.count_eq_zero]
  fewer := h.fewer
  vacant := h.vacant

/-- The slots of a part may be listed in any order. -/
theorem congr (h : Rework t t' before after freed) (hap : t.Apart before)
    (hS : ∀ i, S.count i = before.count i) (hS' : ∀ i, S'.count i = after.count i) :
    Rework t t' S S' freed := by
  refine h.within (R := []) (hap.mono fun i => Nat.le_of_eq (hS i)) ?_ ?_
  · intro i
    rw [hS i, List.count_nil, Nat.zero_add]
  · intro i
    rw [hS' i, List.count_nil, Nat.zero_add]

end Rework

/-! ### The steps of operations -/

/-- A change to a node that leaves it the same one touches its slot only. -/
theorem modify_rework (h : t.Apart [id.index]) {f : Node → Node}
    (hf : (t.slot id.index).Persists (f (t.slot id.index)))
    (hgeneration : (f (t.slot id.index)).generation = (t.slot id.index).generation) :
    Rework t (t.modify id f) [id.index] [id.index] [] := by
  have hsize : id.index < t.slots.size := h.lt_size List.mem_cons_self
  have hfree : id.index ∉ t.free := h.not_free List.mem_cons_self
  have hslot : ∀ i ≠ id.index, (t.modify id f).slot i = t.slot i :=
    fun i hi => slot_modify_of_ne hi f
  refine ⟨rfl, rfl, by simp, ?_, ?_, ?_, ?_, fun i hi => .inl hi, by simp,
    fun _ => .inl (size_modify t id f), ?_, ?_, ?_⟩
  · intro i
    have hnone : ¬ (t.slots.size ≤ i ∧ i < (t.modify id f).slots.size) := by
      rw [size_modify]
      omega
    rw [if_neg hnone]
    rfl
  · intro i _ hi _
    exact hslot i fun heq => hi (by simp [heq])
  · intro i _ _ _
    by_cases hi : i = id.index
    · subst hi
      rw [slot_modify_self hsize]
      exact hf
    · rw [hslot i hi]
      exact .refl _
  · intro i
    rw [List.count_nil]
    by_cases hi : i = id.index
    · subst hi
      rw [slot_modify_self hsize]
      simpa using hgeneration
    · rw [hslot i hi]
      simp
  · intro i hi hnew
    obtain rfl : i = id.index := by simpa using hi
    rcases hnew with hnew | hnew | hnew
    · simp at hnew
    · exact absurd hnew hfree
    · omega
  · intro i
    by_cases hi : i = id.index
    · subst hi
      rw [slot_modify_self hsize, hf.listeners]
    · rw [hslot i hi]
  · intro hvacant i hi
    rw [hslot i fun heq => hfree (heq ▸ hi)]
    exact hvacant i hi

/-- Freeing a slot empties it. -/
theorem vacate_rework (h : t.Apart [id.index]) :
    Rework t (t.vacate id) [id.index] [] [id.index] := by
  have hsize : id.index < t.slots.size := h.lt_size List.mem_cons_self
  have hslot : ∀ i ≠ id.index, (t.vacate id).slot i = t.slot i := fun i hi => slot_vacate_of_ne hi
  have hself := slot_vacate_self hsize
  refine ⟨rfl, rfl, by simp [vacate], ?_, ?_, ?_, ?_, ?_, fun i hi => .inl hi, by simp, by simp,
    ?_, ?_⟩
  · intro i
    have hnone : ¬ (t.slots.size ≤ i ∧ i < (t.vacate id).slots.size) := by
      rw [vacate, size_modify]
      omega
    rw [if_neg hnone]
    simp only [vacate, modify, List.count_nil, List.count_cons]
    omega
  · intro i _ hi _
    exact hslot i fun heq => hi (by simp [heq])
  · intro i _ _ hi
    rw [hslot i fun heq => hi (by simp [heq])]
    exact .refl _
  · intro i
    by_cases hi : i = id.index
    · subst hi
      rw [hself]
      simp
    · rw [hslot i hi, List.count_eq_zero.2 (by simpa using hi)]
      simp
  · intro i hi
    rcases List.mem_cons.1 hi with rfl | hi
    · exact .inr List.mem_cons_self
    · exact .inl hi
  · intro i
    by_cases hi : i = id.index
    · subst hi
      rw [hself]
      exact List.nil_sublist _
    · rw [hslot i hi]
  · intro hvacant i hi
    by_cases heq : i = id.index
    · subst heq
      rw [hself]
      exact ⟨rfl, rfl⟩
    · rw [hslot i heq]
      exact hvacant i ((List.mem_cons.1 hi).resolve_left heq)

/-- A node that is put into a slot that was not occupied. -/
theorem rework_of_taken {j : Nat} {n : Node} (hgrammar : t'.grammar = t.grammar)
    (hlistener : t'.nextListener = t.nextListener) (hsize : t.slots.size ≤ t'.slots.size)
    (hcount : ∀ i, [j].count i + t'.free.count i =
      t.free.count i + if t.slots.size ≤ i ∧ i < t'.slots.size then 1 else 0)
    (hfree : ∀ i ∈ t'.free, i ∈ t.free) (hslot : ∀ i ≠ j, t'.slot i = t.slot i)
    (hreused : t'.slots.size = t.slots.size ∨ t'.free = [])
    (hself : t'.slot j = { n with generation := (t.slot j).generation })
    (hheard : n.listeners = []) (hap : t.Apart []) : Rework t t' [] [j] [] := by
  have hnew : j ∈ t.free ∨ t.slots.size ≤ j := by
    have := hcount j
    grind [List.count_eq_zero]
  have hold : ∀ i < t.slots.size, i ∉ t.free → i ≠ j := by
    intro i hi hfree heq
    subst heq
    rcases hnew with hnew | hnew
    · exact hfree hnew
    · omega
  have hother : ∀ i ∈ t'.free, i ≠ j := by
    intro i hi heq
    subst heq
    have := hcount i
    have := hap i
    have := List.count_pos_iff.2 hi
    have := hap.free_lt_size (hfree i hi)
    grind
  refine ⟨hgrammar, hlistener, hsize, fun i => ?_, ?_, ?_, ?_, ?_, by simp, fun _ => hreused, ?_, ?_,
    ?_⟩
  · rw [List.count_nil, Nat.zero_add]
    exact hcount i
  · intro i hi _ hin
    exact hslot i (hold i hi hin)
  · intro i hi hin _
    rw [hslot i (hold i hi hin)]
    exact .refl _
  · intro i
    by_cases hi : i = j
    · subst hi
      simp [hself]
    · simp [hslot i hi]
  · intro i hi
    exact .inl (hfree i hi)
  · intro i hi _
    obtain rfl : i = j := by simpa using hi
    rw [hself]
    exact hheard
  · intro i
    by_cases hi : i = j
    · subst hi
      simp [hself, hheard]
    · rw [hslot i hi]
  · intro hvacant i hi
    rw [hslot i (hother i hi)]
    exact hvacant i (hfree i hi)

/-- A new node takes a free slot or a new one. -/
theorem occupy_rework (h : t.Apart []) {n : Node} (hheard : n.listeners = []) :
    Rework t (t.occupy n).2 [] [(t.occupy n).1.index] [] ∧
      (t.occupy n).2.node (t.occupy n).1 = { n with generation := (t.occupy n).1.generation } := by
  cases hfree : t.free with
  | nil =>
      have heq : t.occupy n = (⟨t.slots.size, 0⟩,
          { t with slots := t.slots.push { n with generation := 0 } }) := by
        simp [occupy, hfree]
      rw [heq]
      have hself : ({ t with slots := t.slots.push { n with generation := 0 } } : Tree).slot
          t.slots.size = { n with generation := 0 } := by
        simp [slot, Array.getD_eq_getD_getElem?]
      refine ⟨rework_of_taken (n := n) rfl rfl (by simp) ?_ (fun _ hi => hi) ?_ (.inr hfree) ?_
        hheard h, hself⟩
      · intro i
        simp only [Array.size_push, List.count_nil, List.count_cons, hfree]
        grind
      · intro i hi
        simp [slot, Array.getD_eq_getD_getElem?, Array.getElem?_push, hi]
      · rw [hself, slot_of_size_le (Nat.le_refl _)]
        rfl
  | cons j free =>
      have heq : t.occupy n = (⟨j, (t.slot j).generation⟩,
          { t with
            slots := t.slots.setIfInBounds j { n with generation := (t.slot j).generation }
            free := free }) := by
        simp [occupy, hfree, slot]
      rw [heq]
      have hj : j < t.slots.size := h.free_lt_size (by simp [hfree])
      have hself : ({ t with
            slots := t.slots.setIfInBounds j { n with generation := (t.slot j).generation }
            free := free } : Tree).slot j = { n with generation := (t.slot j).generation } := by
        simp [slot, Array.getD_eq_getD_getElem?, hj]
      refine ⟨rework_of_taken (n := n) rfl rfl (by simp) ?_ ?_ ?_ (.inl (by simp)) hself hheard h,
        hself⟩
      · intro i
        simp only [Array.size_setIfInBounds, List.count_nil, List.count_cons, hfree]
        grind
      · intro i hi
        rw [hfree]
        exact List.mem_cons_of_mem j hi
      · intro i hi
        simp [slot, Array.getD_eq_getD_getElem?, Array.getElem?_setIfInBounds_ne (Ne.symm hi)]

end Tree

end Tessera
