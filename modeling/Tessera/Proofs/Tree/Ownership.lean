/-
**Ownership of nodes.**

The live nodes of a tree in use form a forest whose roots are the created nodes: what a node holds is
live and knows the node as its parent, nothing is held twice, and nothing is lost, since every live
node lies below a created one.

Main definitions:

* `Tessera.Tree.Forest` — the live nodes form a forest with the given roots.

Main results:

* `Tessera.Planted.nodeCount_eq` — the number of live nodes;
* `Tessera.Session.forest_run` — **the live nodes of a tree in use form a forest**.
-/

import Tessera.Proofs.Tree.Coherence

set_option autoImplicit false

namespace Tessera

open Branch Tessera.Tree

variable {t : Tree} {n p : NodeId} {g : Grammar} {roots : List Branch}

/-- The live nodes of a tree form a forest with the given roots. -/
structure Tree.Forest (t : Tree) (created : List NodeId) : Prop where
  /-- No slot is free twice. -/
  free_nodup : t.free.Nodup
  /-- The parts of a live node are live, and have the node as their parent. -/
  owned : ∀ p c, t.Live p → c ∈ (t.node p).body.owned → t.Live c ∧ t.parent c = .ok (some p)
  /-- A live node holds no part twice. -/
  owned_nodup : ∀ p, t.Live p → (t.node p).body.owned.Nodup
  /-- No node is a part of two live nodes. -/
  owner_unique : ∀ p q c, t.Live p → t.Live q → c ∈ (t.node p).body.owned →
    c ∈ (t.node q).body.owned → p = q
  /-- A live node with a parent is a part of it. -/
  held : ∀ c p, t.Live c → t.parent c = .ok (some p) → t.Live p ∧ c ∈ (t.node p).body.owned
  /-- A live node without a parent is one of the roots. -/
  root : ∀ c, t.Live c → t.parent c = .ok none → c ∈ created
  /-- The roots are live. -/
  created_live : ∀ r ∈ created, t.Live r ∧ t.parent r = .ok none
  /-- Every live node lies below a root. -/
  reachable : ∀ c, t.Live c → ∃ r ∈ created, t.Below r c
  /-- The number of nodes is that of the live nodes. -/
  count : ∃ ids : List NodeId, ids.Nodup ∧ (∀ n, n ∈ ids ↔ t.Live n) ∧ t.nodeCount = ids.length
  /-- A node is active when it is among the children of its parent. -/
  active : ∀ n, t.Live n → ∃ b, t.isActive n = .ok b ∧
    (b = true ↔ ∃ p children, t.parent n = .ok (some p) ∧ t.children p = .ok children ∧ n ∈ children)
  /-- The numbers of up to `2 ^ 32` slots have 32 bits. -/
  narrow : t.slots.size ≤ 2 ^ 32 → ∀ n, t.Live n → n.index < 2 ^ 32

/-! ### Reading parents -/

namespace Tree.Live

variable (h : t.Live n)
include h

theorem parent_eq : t.parent n = .ok (t.node n).parent := by
  rw [Tree.parent, h.get_eq]
  rfl

theorem isActive_eq : t.isActive n = .ok (t.activeParent? n).isSome := by
  rw [Tree.isActive, h.get_eq]
  rfl

end Tree.Live

/-! ### The number of nodes -/

/-- The number of live nodes. -/
theorem Planted.nodeCount_eq (h : Planted t roots) : t.nodeCount = (idsAll roots).length := by
  have hfree : t.free.Nodup := by
    rw [List.nodup_iff_count_le_one]
    intro i
    have := h.count i
    grind
  -- each slot is used by one node, or it is free
  have hperm : (slotsAll roots ++ t.free).Perm (List.range t.slots.size) := by
    rw [List.perm_iff_count]
    intro i
    rw [List.count_append, h.count i]
    split
    · next hi => exact (List.count_eq_one_of_mem List.nodup_range (List.mem_range.2 hi)).symm
    · next hi => exact (List.count_eq_zero.2 fun hmem => hi (List.mem_range.1 hmem)).symm
  have hlength := hperm.length_eq
  rw [List.length_append, List.length_range, slotsAll, List.length_map] at hlength
  rw [nodeCount]
  omega

/-! ### The forest -/

/-- The nodes of a tree in order form a forest. -/
theorem Garden.forest (h : Garden t roots) : t.Forest (roots.map Branch.root) where
  free_nodup := by
    rw [List.nodup_iff_count_le_one]
    intro i
    have := h.count i
    grind
  owned p c hp hc := by
    obtain ⟨hmem, hparent⟩ := h.owned_mem (h.live_iff.1 hp) hc
    have hlive : t.Live c := h.live_iff.2 hmem
    exact ⟨hlive, by rw [hlive.parent_eq, hparent]⟩
  owned_nodup p hp := h.nodup_owned (h.live_iff.1 hp)
  owner_unique p q c hp hq hc hc' := by
    have hparent := (h.owned_mem (h.live_iff.1 hp) hc).2
    rw [(h.owned_mem (h.live_iff.1 hq) hc').2] at hparent
    exact (Option.some.inj hparent).symm
  held c p hc hp := by
    rw [hc.parent_eq] at hp
    obtain ⟨hmem, howned⟩ := h.owner (h.live_iff.1 hc) (Except.ok.inj hp)
    exact ⟨h.live_iff.2 hmem, howned⟩
  root c hc hp := by
    rw [hc.parent_eq] at hp
    exact h.root_of_parent (h.live_iff.1 hc) (Except.ok.inj hp)
  created_live r hr := by
    obtain ⟨b, hb, rfl⟩ := List.mem_map.1 hr
    have hlive : t.Live b.root := h.live_iff.2 (mem_idsAll.2 ⟨b, hb, b.root_mem_ids⟩)
    exact ⟨hlive, by rw [hlive.parent_eq, (h.stands b hb).parent_eq]⟩
  reachable c hc := by
    obtain ⟨b, hb, hmem⟩ := mem_idsAll.1 (h.live_iff.1 hc)
    exact ⟨b.root, List.mem_map_of_mem hb, (h.stands b hb).below_iff.2 hmem⟩
  count := ⟨idsAll roots, h.nodup_ids, fun _ => h.live_iff.symm, h.nodeCount_eq⟩
  active n hn := by
    have hmem := h.live_iff.1 hn
    refine ⟨_, hn.isActive_eq, ?_⟩
    rw [Option.isSome_iff_exists]
    constructor
    · rintro ⟨p, hp⟩
      obtain ⟨hparent, hactive⟩ := (activeParent?_eq_some fun q hq =>
        (h.sound q (h.owner hmem hq).1).formed).1 hp
      have hlive : t.Live p := h.live_iff.2 (h.owner hmem hparent).1
      exact ⟨p, _, by rw [hn.parent_eq, hparent], hlive.children_eq, hactive⟩
    · rintro ⟨p, children, hp, hchildren, hmem'⟩
      rw [hn.parent_eq] at hp
      have hparent := Except.ok.inj hp
      have hlive : t.Live p := h.live_iff.2 (h.owner hmem hparent).1
      rw [hlive.children_eq] at hchildren
      obtain rfl := Except.ok.inj hchildren
      exact ⟨p, (activeParent?_eq_some fun q hq =>
        (h.sound q (h.owner hmem hq).1).formed).2 ⟨hparent, hmem'⟩⟩
  narrow hsize _ hn := Nat.lt_of_lt_of_le hn.size hsize

/-- **The live nodes of a tree in use form a forest** whose roots are the created nodes. -/
theorem Session.forest_run {draft : Draft} (hbuild : draft.build = .ok g) (ops : List Operation) :
    (Session.run g ops).tree.Forest (Session.run g ops).created := by
  obtain ⟨-, -, roots, hgarden, hroots⟩ :=
    Session.tended_run (Draft.build_valid hbuild) (Draft.build_ranked hbuild) ops
  rw [← hroots]
  exact hgarden.forest

/-- The nodes of a row form a forest. -/
theorem Session.forest_run_row :
    rowDraft.build = .ok rowGrammar ∧ (Session.run rowGrammar Session.rowOperations).tree.Forest
      (Session.run rowGrammar Session.rowOperations).created :=
  ⟨rowDraft_build, Session.forest_run rowDraft_build Session.rowOperations⟩

end Tessera
