/-
**Edits of one branch.**

An edit works on one branch of a tree and is then carried up.  What such an edit does to the whole
tree is collected here: which nodes are there afterwards, which ones are the same as before, and how
the contents of the ancestors change.  Whatever the edit was, the content of an ancestor is the old
one with the span of the edited node replaced.

Main definitions:

* `Tessera.Tree.Around` — the text before and after a node in the content of an ancestor;
* `Tessera.Edited` — one branch took the place of another, and the change was carried up.

Main results:

* `Tessera.Garden.pending` — after an edit of a branch there is at most one gap, right above it;
* `Tessera.Garden.edit` — **carrying the change up leaves the whole tree in order**;
* `Tessera.Edited.node_eq` — **nodes elsewhere are the same as before**;
* `Tessera.Edited.splice` — **the content of an ancestor is spliced**.
-/

import Tessera.Proofs.Tree.Propagation

set_option autoImplicit false

namespace Tessera

open Branch Tessera.Tree

variable {t t₁ t' : Tree} {parent : Option NodeId} {id n m p q x y : NodeId} {ps : List NodeId}
  {roots roots' : List Branch} {b c c' : Branch} {freed : List Nat} {e : Edit}

/-- The roots of branches are among their nodes, in the same order. -/
theorem Branch.roots_sublist (bs : List Branch) : (bs.map Branch.root).Sublist (idsAll bs) := by
  induction bs with
  | nil => exact .slnil
  | cons b bs ih =>
      cases b
      exact .cons_cons _ (ih.trans (List.sublist_append_right _ _))

/-! ### Nodes of the tree after an edit -/

namespace Planted

theorem nodup_ids (h : Planted t roots) : (idsAll roots).Nodup := .of_map _ h.apart.nodup

/-- The nodes after an edit are those of the new branch and those next to the old one. -/
theorem mem_regrown_iff (h : Planted t roots) (h' : Planted t' roots') (hb : b ∈ roots)
    (hin : c.Inside b) (hperm : (idsAll roots' ++ c.ids).Perm (idsAll roots ++ c'.ids)) :
    x ∈ idsAll roots' ↔ x ∈ c'.ids ∨ x ∈ idsAll roots ∧ x ∉ c.ids := by
  have hcount := hperm.count_eq x
  rw [List.count_append, List.count_append] at hcount
  have hle := List.nodup_iff_count_le_one.1 h.nodup_ids x
  have hle' := List.nodup_iff_count_le_one.1 h'.nodup_ids x
  have hc : (c.ids).count x ≤ (idsAll roots).count x := by
    by_cases hx : x ∈ c.ids
    · have hnodup : c.ids.Nodup := .of_map _ (h.nodup_of_inside hb hin)
      have := List.nodup_iff_count_le_one.1 hnodup x
      have := List.count_pos_iff.2 (mem_idsAll.2 ⟨b, hb, hin.subset hx⟩ : x ∈ idsAll roots)
      omega
    · rw [List.count_eq_zero.2 hx]
      exact Nat.zero_le _
  simp only [← List.count_pos_iff]
  omega

/-- An edit of a branch does not touch the nodes outside of it. -/
theorem node_outside (h : Planted t roots) (hb : b ∈ roots) (hin : c.Inside b)
    (hr : t.Rework t' c.slots c'.slots freed) (hx : x ∈ idsAll roots) (hxc : x ∉ c.ids) :
    t'.node x = t.node x := by
  have hslot := index_mem_slotsAll hx
  refine hr.untouched _ (h.apart.lt_size hslot) (fun hmem => ?_) (h.apart.not_free hslot)
  obtain ⟨y, hy, hyx⟩ := List.mem_map.1 hmem
  have hyroots : y ∈ idsAll roots := mem_idsAll.2 ⟨b, hb, hin.subset hy⟩
  rw [← h.eq_of_index hyroots hx hyx] at hxc
  exact hxc hy

/-- Only the root of a branch has its parent outside of the branch. -/
theorem eq_root_of_outside (hc : c.Stands t parent) (hx : x ∈ c.ids)
    (hp : (t.node x).parent = some p) (hpc : p ∉ c.ids) : x = c.root := by
  rcases hc.owner hx with rfl | ⟨q, hq, hparent, -⟩
  · rfl
  · obtain rfl := Option.some.inj (hp.symm.trans hparent)
    exact absurd hq hpc

/-- What lies outside of a branch has its parent outside, too. -/
theorem parent_outside (h : Planted t roots) (hc : c.Stands t parent) (hx : x ∈ idsAll roots)
    (hxc : x ∉ c.ids) (hp : (t.node x).parent = some p) : p ∉ c.ids := by
  obtain ⟨-, howned⟩ := h.owner hx hp
  exact fun hpc => hxc (hc.owned_mem hpc howned).1

/-- The parent of the root of a branch lies outside of it. -/
theorem root_parent_outside (h : Planted t roots) (hb : b ∈ roots) (hin : c.Inside b)
    (hc : c.Stands t parent) (hp : (t.node c.root).parent = some p) : p ∉ c.ids := by
  obtain ⟨hpmem, howned⟩ := h.owner (mem_idsAll.2 ⟨b, hb, hin.subset c.root_mem_ids⟩) hp
  have hnodup := h.nodup_of_inside hb hin
  cases hc with
  | @fork _ id parts _ _ _ _ hstands =>
      intro hpc
      rcases List.mem_cons.1 hpc with rfl | hpc
      · exact h.ne_of_owned hpmem howned rfl
      · -- the root would be one of the nodes below it
        obtain ⟨d, hd, hpd⟩ := mem_idsAll.1 hpc
        have hroot : id ∈ idsAll parts :=
          mem_idsAll.2 ⟨d, hd, ((hstands d hd).owned_mem hpd howned).1⟩
        rw [slots_fork] at hnodup
        exact (List.nodup_cons.1 hnodup).1 (index_mem_slotsAll hroot)

/-- The ancestors that a change reaches lie outside of the branch of the node. -/
theorem climb_outside (h : Planted t roots) (hb : b ∈ roots) (hin : c.Inside b)
    (hc : c.Stands t parent) (hps : t.Climb c.root ps) (hp : p ∈ ps) :
    p ∈ idsAll roots ∧ p ∉ c.ids := by
  have hroot : c.root ∈ idsAll roots := mem_idsAll.2 ⟨b, hb, hin.subset c.root_mem_ids⟩
  refine ⟨h.mem_of_climb hroot hps hp, ?_⟩
  have hup : ∀ q, (t.node c.root).parent = some q → q ∈ idsAll roots ∧ q ∉ c.ids :=
    fun q hq => ⟨(h.owner hroot hq).1, h.root_parent_outside hb hin hc hq⟩
  generalize c.root = n at hps hup
  induction hps with
  | top _ => simp at hp
  | unset _ _ _ => simp at hp
  | @step n q ps hq _ _ _ ih =>
      obtain ⟨hqmem, hqc⟩ := hup q hq
      rcases List.mem_cons.1 hp with rfl | hp
      · exact hqc
      · exact ih hp fun r hr => ⟨(h.owner hqmem hr).1, h.parent_outside hc hqmem hqc hr⟩

/-- Different parts of a node have nothing below them in common. -/
theorem siblings_apart (h : Planted t roots) (hp : p ∈ idsAll roots)
    (hx : x ∈ (t.node p).body.owned) (hy : y ∈ (t.node p).body.owned) (hxid : t.Below x id)
    (hyid : t.Below y id) : x = y := by
  obtain ⟨b, c, hb, hin, rfl, hc⟩ := h.exists_branch hp
  have hnodup := h.nodup_of_inside hb hin
  cases hc with
  | fork _ _ _ howned hstands =>
      rw [root_fork, howned] at hx hy
      obtain ⟨l, d, r, rfl, rfl⟩ := exists_part hx
      have hd := ((hstands d (by simp)).below_iff).1 hxid
      rw [List.map_append, List.map_cons] at hy
      rw [slots_fork, slotsAll_append, slotsAll_cons] at hnodup
      have hdslot := index_mem_slots hd
      -- another part with the same node below it would hold its slot a second time
      have hother : ∀ q ∈ l ++ r, q.root ≠ y := by
        rintro q hq rfl
        have hqmem : q ∈ l ++ d :: r := by
          rcases List.mem_append.1 hq with hq | hq
          · simp [hq]
          · simp [hq]
        have hqid := ((hstands q hqmem).below_iff).1 hyid
        rcases List.mem_append.1 hq with hq | hq
        · have := index_mem_slotsAll (mem_idsAll.2 ⟨q, hq, hqid⟩ : id ∈ idsAll l)
          grind
        · have := index_mem_slotsAll (mem_idsAll.2 ⟨q, hq, hqid⟩ : id ∈ idsAll r)
          grind
      rcases (List.mem_append.1 hy).imp_right List.mem_cons.1 with hy | hy | hy
      · obtain ⟨q, hq, rfl⟩ := List.mem_map.1 hy
        exact absurd rfl (hother q (List.mem_append_left _ hq))
      · exact hy.symm
      · obtain ⟨q, hq, rfl⟩ := List.mem_map.1 hy
        exact absurd rfl (hother q (List.mem_append_right _ hq))

/-- A node has each of its parts once. -/
theorem nodup_owned (h : Planted t roots) (hp : p ∈ idsAll roots) :
    (t.node p).body.owned.Nodup := by
  obtain ⟨b, c, hb, hin, rfl, hc⟩ := h.exists_branch hp
  have hnodup : c.ids.Nodup := .of_map _ (h.nodup_of_inside hb hin)
  cases hc with
  | @fork _ id parts _ _ _ howned _ =>
      rw [root_fork, howned]
      rw [ids_fork, List.nodup_cons] at hnodup
      exact hnodup.2.sublist (Branch.roots_sublist parts)

end Planted

/-- No part contributes twice to a content. -/
theorem Body.nodup_active {body : Body} (h : body.owned.Nodup) : body.active.Nodup := by
  cases body with
  | leaf => exact h
  | sequence children => exact h
  | choice alternatives current =>
      rw [Body.active]
      cases Body.currentOf alternatives current <;> simp
  | optional child present =>
      rw [Body.active]
      split
      · exact h
      · simp
  | loop items => exact h
  | separated items separators =>
      rw [Body.active]
      rw [Body.owned] at h
      rw [List.nodup_iff_count_le_one] at h ⊢
      intro x
      refine Nat.le_trans ?_ (h x)
      clear h
      rw [List.count_append]
      induction items generalizing separators with
      | nil => simp [Body.interleave]
      | cons item items ih =>
          cases separators with
          | nil =>
              have := ih []
              simp only [Body.interleave, List.count_cons, List.count_nil] at this ⊢
              omega
          | cons separator separators =>
              have := ih separators
              simp only [Body.interleave, List.count_cons] at this ⊢
              omega

/-! ### The gap after an edit -/

/-- After an edit of a branch there is at most one gap, right above it. -/
theorem Garden.pending (h : Garden t roots) (hb : b ∈ roots) (hin : c.Inside b)
    (hc : c.Stands t parent) (hr : Regrown t t' parent [c] [c'] freed) (hroot : c'.root = c.root)
    (hkept : c.root.index ∉ freed)
    (hset : (t.node c.root).content.isSome → (t'.node c.root).content.isSome) :
    ∃ roots', Pending t' roots' c.root ∧ roots'.map Branch.root = roots.map Branch.root ∧
      (idsAll roots' ++ c.ids).Perm (idsAll roots ++ c'.ids) := by
  have hrework : t.Rework t' c.slots c'.slots freed := by simpa using hr.rework
  have hc' : c'.Stands t' parent := hr.grove.stands c' (by simp)
  obtain ⟨roots', hplanted, hroots, hperm⟩ := h.regrow hb hin hc hrework hc' hroot
  refine ⟨roots', ?_, hroots, hperm⟩
  have hmem : ∀ x, x ∈ idsAll roots' ↔ x ∈ c'.ids ∨ x ∈ idsAll roots ∧ x ∉ c.ids :=
    fun x => h.toPlanted.mem_regrown_iff hplanted hb hin hperm
  have hsame : ∀ x ∈ idsAll roots, x ∉ c.ids → t'.node x = t.node x :=
    fun x hx hxc => h.node_outside hb hin hrework hx hxc
  have hinside : ∀ x ∈ c'.ids, t'.Sound x := fun x hx => hr.grove.sound x (by simpa using hx)
  have hnode := (hr.persists (h.grove_of_inside hb hin hc) (by simpa using c.root_mem_ids) hkept).1
  -- the parts of a node outside are outside, or the root of the branch
  have hparts : ∀ x ∈ idsAll roots, x ∉ c.ids → ∀ y ∈ (t.node x).body.owned,
      (y ≠ c.root → t'.node y = t.node y) ∧ (t.node y).parent = some x := by
    intro x hx hxc y hy
    obtain ⟨hymem, hyparent⟩ := h.owned_mem hx hy
    refine ⟨fun hne => hsame y hymem fun hyc => hne ?_, hyparent⟩
    exact Planted.eq_root_of_outside hc hyc hyparent hxc
  have hdefinition : ∀ x ∈ idsAll roots, x ∉ c.ids → ∀ y ∈ (t.node x).body.owned,
      (t'.node y).definition = (t.node y).definition := by
    intro x hx hxc y hy
    by_cases hne : y = c.root
    · rw [hne]
      exact hnode.definition
    · rw [(hparts x hx hxc y hy).1 hne]
  refine ⟨hplanted, fun x hx => ?_, fun x hx => ?_, fun x hx => ?_⟩
  · rcases (hmem x).1 hx with hx | ⟨hx, hxc⟩
    · exact (hinside x hx).formed
    · exact (h.sound x hx).formed.congr hrework.grammar (.of_eq (hsame x hx hxc))
        (hdefinition x hx hxc)
  · rcases (hmem x).1 hx with hx | ⟨hx, hxc⟩
    · exact (hinside x hx).settled
    · refine (h.sound x hx).settled.congr hrework.grammar (.of_eq (hsame x hx hxc))
        (by rw [hsame x hx hxc]) fun y hy hsome => ?_
      by_cases hne : y = c.root
      · rw [hne] at hsome ⊢
        exact hset hsome
      · rwa [(hparts x hx hxc y (Body.owned_of_active hy)).1 hne]
  · rcases (hmem x).1 hx with hx | ⟨hx, hxc⟩
    · exact .inl (hinside x hx).composed
    · by_cases hdep : c.root ∈ (t.node x).body.active
      · right
        rw [hnode.parent, hsame x hx hxc]
        exact ⟨(hparts x hx hxc _ (Body.owned_of_active hdep)).2, hdep⟩
      · left
        refine (h.sound x hx).composed.congr hrework.grammar (.of_eq (hsame x hx hxc))
          (by rw [hsame x hx hxc]) fun y hy => ?_
        rw [(hparts x hx hxc y (Body.owned_of_active hy)).1]
        rintro rfl
        exact hdep hy

/-! ### Texts around a node -/

/-- The text before and after a node in the content of the node itself or of an ancestor that depends
on it. -/
inductive Tree.Around (t : Tree) (n : NodeId) : NodeId → Text → Text → Prop
  | here : Around t n n [] []
  | above {c p : NodeId} {l r : List NodeId} {before after : Text} (h : Around t n c before after)
      (hactive : (t.node p).body.active = l ++ c :: r) :
      Around t n p (t.contents l ++ before) (after ++ t.contents r)

theorem Tree.contents_append (l r : List NodeId) :
    t.contents (l ++ r) = t.contents l ++ t.contents r := List.flatMap_append

theorem Tree.contents_cons (x : NodeId) (r : List NodeId) :
    t.contents (x :: r) = (t.node x).content.getD [] ++ t.contents r := rfl

/-- The ancestors that a change reaches hold contents. -/
theorem Tree.Climb.isSome_of_mem (h : t.Climb n ps) (hp : p ∈ ps) : (t.node p).content.isSome := by
  induction h with
  | top _ => simp at hp
  | unset _ _ _ => simp at hp
  | step _ _ hset _ ih =>
      rcases List.mem_cons.1 hp with rfl | hp
      · exact hset
      · exact ih hp

/-- The ancestors that a change of a node reaches depend on the node. -/
theorem Tree.Climb.activeBelow (h : t.Climb n ps) (hp : p ∈ ps) : t.ActiveBelow p n := by
  induction h with
  | top _ => simp at hp
  | unset _ _ _ => simp at hp
  | step _ hactive _ _ ih =>
      rcases List.mem_cons.1 hp with rfl | hp
      · exact .single hactive
      · exact (ih hp).tail hactive

/-! ### Whole edits -/

/-- One branch inside of a tree took the place of another, and the change was carried up to the
ancestors `ps`.  In between is the tree `t₁`. -/
structure Edited (t t₁ t' : Tree) (roots roots' : List Branch) (c c' : Branch) (ps : List NodeId)
    (freed : List Nat) : Prop where
  garden : Garden t roots
  garden' : Garden t' roots'
  heads : roots'.map Branch.root = roots.map Branch.root
  inside : ∃ b ∈ roots, c.Inside b
  stands : c.Stands t (t.node c.root).parent
  root : c'.root = c.root
  regrown : Regrown t t₁ (t.node c.root).parent [c] [c'] freed
  spared : Spared [c] freed
  climb : t.Climb c.root ps
  retold : t₁.Retold t' ps
  set : ∀ p ∈ ps, (t'.node p).content.isSome
  mem_iff : ∀ x, x ∈ idsAll roots' ↔ x ∈ c'.ids ∨ x ∈ idsAll roots ∧ x ∉ c.ids

/-- **Carrying the change up leaves the whole tree in order.** -/
theorem Garden.edit (h : Garden t roots) (hb : b ∈ roots) (hin : c.Inside b)
    (hc : c.Stands t (t.node c.root).parent)
    (hr : Regrown t e.tree (t.node c.root).parent [c] [c'] freed) (hroot : c'.root = c.root)
    (hspared : Spared [c] freed)
    (hset : (t.node c.root).content.isSome → (e.tree.node c.root).content.isSome) :
    ∃ roots' ps, Edited t e.tree (Edit.propagateUp c.root e).tree roots roots' c c' ps freed ∧
      (Edit.propagateUp c.root e).notices = (ps.map (Edit.recomposedNotice e.tree
        (Edit.propagateUp c.root e).tree)).reverse ++ e.notices := by
  obtain ⟨roots', hpending, hroots, hperm⟩ :=
    h.pending hb hin hc hr hroot (hspared.root c (by simp)) hset
  have hmem : ∀ x, x ∈ idsAll roots' ↔ x ∈ c'.ids ∨ x ∈ idsAll roots ∧ x ∉ c.ids :=
    fun x => h.toPlanted.mem_regrown_iff hpending.planted hb hin hperm
  have hn : c.root ∈ idsAll roots' := (hmem _).2 (.inl (hroot ▸ c'.root_mem_ids))
  obtain ⟨ps, hclimbs⟩ := Edit.propagateUp_climbs hpending hn
  have hrework : t.Rework e.tree c.slots c'.slots freed := by simpa using hr.rework
  have hnode := (hr.persists (h.grove_of_inside hb hin hc) (by simpa using c.root_mem_ids)
    (hspared.root c (by simp))).1
  -- the way up leads through nodes outside, which the edit of the branch did not touch
  have hclimb : t.Climb c.root ps := by
    refine hclimbs.climb.congr (fun x => x ∈ idsAll roots ∧ x ∉ c.ids) (fun x p hx hp => ?_)
      hnode.parent.symm (fun x hx => .of_eq (h.node_outside hb hin hrework hx.1 hx.2).symm)
      fun x hx => by rw [h.node_outside hb hin hrework hx.1 hx.2]
    rcases hx with rfl | ⟨hx, hxc⟩
    · rw [hnode.parent] at hp
      exact ⟨(h.owner (mem_idsAll.2 ⟨b, hb, hin.subset c.root_mem_ids⟩) hp).1,
        h.root_parent_outside hb hin hc hp⟩
    · rw [h.node_outside hb hin hrework hx hxc] at hp
      exact ⟨(h.owner hx hp).1, h.parent_outside hc hx hxc hp⟩
  exact ⟨roots', ps, ⟨h, hclimbs.garden, hroots, ⟨b, hb, hin⟩, hc, hroot, hr, hspared, hclimb,
    hclimbs.retold, hclimbs.set, hmem⟩, hclimbs.notices⟩

namespace Edited

variable (h : Edited t t₁ t' roots roots' c c' ps freed)
include h

theorem root_mem : c.root ∈ idsAll roots := by
  obtain ⟨b, hb, hin⟩ := h.inside
  exact mem_idsAll.2 ⟨b, hb, hin.subset c.root_mem_ids⟩

theorem grammar : t'.grammar = t.grammar :=
  h.retold.grammar.trans h.regrown.rework.grammar

theorem climb_outside (hp : p ∈ ps) : p ∈ idsAll roots ∧ p ∉ c.ids := by
  obtain ⟨b, hb, hin⟩ := h.inside
  exact h.garden.toPlanted.climb_outside hb hin h.stands h.climb hp

/-- Outside of the branch only contents of ancestors change. -/
theorem retold_outside (hx : x ∈ idsAll roots) (hxc : x ∉ c.ids) :
    (t.node x).Stays (t'.node x) ∧ (t'.node x).listeners = (t.node x).listeners := by
  obtain ⟨b, hb, hin⟩ := h.inside
  have hsame : t₁.node x = t.node x :=
    h.garden.node_outside hb hin (by simpa using h.regrown.rework) hx hxc
  rw [← hsame]
  exact ⟨h.retold.stays _, h.retold.listeners _⟩

/-- **Nodes elsewhere are the same as before.** -/
theorem node_eq (hx : x ∈ idsAll roots) (hxc : x ∉ c.ids) (hps : x ∉ ps) :
    t'.node x = t.node x := by
  obtain ⟨b, hb, hin⟩ := h.inside
  rw [← h.garden.node_outside hb hin (by simpa using h.regrown.rework) hx hxc]
  refine h.retold.same _ fun hmem => ?_
  obtain ⟨p, hp, heq⟩ := List.mem_map.1 hmem
  rw [h.garden.eq_of_index (h.climb_outside hp).1 hx heq] at hp
  exact hps hp

/-- Nodes outside of the branch stay live. -/
theorem live_outside (hx : x ∈ idsAll roots) (hxc : x ∉ c.ids) : t'.Live x :=
  h.garden'.live_iff.2 ((h.mem_iff x).2 (.inr ⟨hx, hxc⟩))

/-- What lies outside of the old branch lies outside of the new one. -/
theorem not_mem_of_outside (hx : x ∈ idsAll roots) (hxc : x ∉ c.ids) : x ∉ c'.ids := by
  obtain ⟨b, hb, hin⟩ := h.inside
  have hap : t.Apart ([x.index] ++ slotsAll [c]) := by
    intro i
    have := h.garden.count i
    have hc := Nat.le_trans (hin.count_le i) (count_le_slotsAll hb i)
    have hxcount := List.count_pos_iff.2 (index_mem_slotsAll hx)
    have hxslot : c.slots.count x.index = 0 := List.count_eq_zero.2 fun hmem => by
      obtain ⟨y, hy, hyx⟩ := List.mem_map.1 hmem
      rw [h.garden.eq_of_index (mem_idsAll.2 ⟨b, hb, hin.subset hy⟩) hx hyx] at hy
      exact hxc hy
    simp only [slotsAll_cons, slotsAll_nil, List.append_nil, List.count_append, List.count_cons,
      List.count_nil]
    by_cases hi : x.index = i
    · subst hi
      simp only [beq_self_eq_true, if_true]
      omega
    · simp only [beq_iff_eq, hi, if_false]
      omega
  have hap' : t₁.Apart ([x.index] ++ slotsAll [c']) :=
    h.regrown.rework.apart hap (fun i => List.count_append) fun i => List.count_append
  intro hxc'
  have hnodup := hap'.nodup
  rw [List.singleton_append, List.nodup_cons] at hnodup
  exact hnodup.1 (index_mem_slotsAll (by simpa using hxc'))

/-- The nodes of the new branch keep what the edit of the branch gave them. -/
theorem node_inside (hx : x ∈ c'.ids) : t'.node x = t₁.node x := by
  refine h.retold.same _ fun hmem => ?_
  obtain ⟨p, hp, heq⟩ := List.mem_map.1 hmem
  obtain ⟨hpmem, hpc⟩ := h.climb_outside hp
  have hpnew : p ∈ idsAll roots' := (h.mem_iff p).2 (.inr ⟨hpmem, hpc⟩)
  have hxnew : x ∈ idsAll roots' := (h.mem_iff x).2 (.inl hx)
  obtain rfl := h.garden'.eq_of_index hpnew hxnew heq
  exact h.not_mem_of_outside hpmem hpc hx

/-- The parts next to the one that a change comes from are the same as before. -/
theorem sibling_eq (hx : x ∈ (t.node p).body.active) (hxn : t.Below x c.root) (hp : p ∈ ps)
    (hy : y ∈ (t.node p).body.active) (hne : y ≠ x) : t'.node y = t.node y := by
  obtain ⟨hpmem, -⟩ := h.climb_outside hp
  have hxy : ∀ id, t.Below x id → ¬ t.Below y id := fun id hxid hyid =>
    hne (h.garden.siblings_apart hpmem (Body.owned_of_active hy) (Body.owned_of_active hx) hyid hxid)
  refine h.node_eq (h.garden.owned_mem hpmem (Body.owned_of_active hy)).1 (fun hyc => ?_)
    fun hyps => ?_
  · exact hxy y (hxn.trans (h.stands.below_iff.2 hyc)) .refl
  · exact hxy c.root hxn ((h.climb.activeBelow hyps).below)

/-- A span of the content of a node is replaced in the content of the parent, too. -/
theorem splice_step {before old new after : Text} {l r : List NodeId} (hp : p ∈ ps)
    (hactive : (t.node p).body.active = l ++ x :: r) (hxn : t.Below x c.root)
    (hold : (t.node x).content = some (before ++ old ++ after))
    (hnew : (t'.node x).content = some (before ++ new ++ after)) :
    (t.node p).content = some (t.contents l ++ before ++ old ++ (after ++ t.contents r)) ∧
      (t'.node p).content = some (t.contents l ++ before ++ new ++ (after ++ t.contents r)) := by
  obtain ⟨hpmem, hpc⟩ := h.climb_outside hp
  obtain ⟨hstays, -⟩ := h.retold_outside hpmem hpc
  have hxmem : x ∈ (t.node p).body.active := by simp [hactive]
  have hnodup : (l ++ x :: r).Nodup :=
    hactive ▸ Body.nodup_active (h.garden.nodup_owned hpmem)
  -- the parts on both sides keep their contents
  have hside : ∀ y ∈ l ++ r, (t'.node y).content = (t.node y).content := by
    intro y hy
    have hymem : y ∈ (t.node p).body.active := by
      rw [hactive]
      rcases List.mem_append.1 hy with hy | hy
      · simp [hy]
      · simp [hy]
    have hne : y ≠ x := by
      rintro rfl
      rw [List.nodup_append, List.nodup_cons] at hnodup
      rcases List.mem_append.1 hy with hy | hy
      · exact hnodup.2.2 y hy y (by simp) rfl
      · exact hnodup.2.1.1 hy
    rw [h.sibling_eq hxmem hxn hp hymem hne]
  have hl : t'.contents l = t.contents l :=
    contents_congr fun y hy => hside y (List.mem_append_left _ hy)
  have hr : t'.contents r = t.contents r :=
    contents_congr fun y hy => hside y (List.mem_append_right _ hy)
  have hleaf : ¬ (t.shapeOf p).isLeaf = true := by
    intro hleaf
    have hbody := (formed_leaf_iff hleaf).1 (h.garden.sound p hpmem).formed
    rw [hbody] at hxmem
    simp [Body.active] at hxmem
  have hleaf' : ¬ (t'.shapeOf p).isLeaf = true := by
    rwa [shapeOf, h.grammar, hstays.definition]
  have hbefore : ∀ w, (t.node p).content = some w →
      w = t.contents l ++ before ++ old ++ (after ++ t.contents r) := by
    intro w hw
    have := (h.garden.sound p hpmem).composed w hw
    rw [if_neg hleaf, hactive, contents_append, contents_cons, hold] at this
    simpa using this
  have hafter : ∀ w, (t'.node p).content = some w →
      w = t.contents l ++ before ++ new ++ (after ++ t.contents r) := by
    intro w hw
    have := (h.garden'.sound p ((h.mem_iff p).2 (.inr ⟨hpmem, hpc⟩))).composed w hw
    rw [if_neg hleaf', hstays.body, hactive, contents_append, contents_cons, hnew, hl, hr] at this
    simpa using this
  obtain ⟨w, hw⟩ := Option.isSome_iff_exists.1 (h.climb.isSome_of_mem hp)
  obtain ⟨w', hw'⟩ := Option.isSome_iff_exists.1 (h.set p hp)
  rw [hw, hw', hbefore w hw, hafter w' hw']
  exact ⟨rfl, rfl⟩

/-- **The content of an ancestor is spliced**: the span of the edited node is replaced, and nothing
else. -/
theorem splice {old new : Text} (hold : (t.node c.root).content = some old)
    (hnew : (t'.node c.root).content = some new) (hp : p ∈ ps) :
    ∃ before after, t.Around c.root p before after ∧
      (t.node p).content = some (before ++ old ++ after) ∧
      (t'.node p).content = some (before ++ new ++ after) := by
  -- on the way up: what holds at a node of the climb holds at all further ones
  have hup : ∀ x qs, t.Climb x qs → (∀ q ∈ qs, q ∈ ps) → t.Below x c.root →
      ∀ before after, t.Around c.root x before after →
        (t.node x).content = some (before ++ old ++ after) →
        (t'.node x).content = some (before ++ new ++ after) → ∀ q ∈ qs, ∃ before after,
          t.Around c.root q before after ∧ (t.node q).content = some (before ++ old ++ after) ∧
          (t'.node q).content = some (before ++ new ++ after) := by
    intro x qs hqs
    induction hqs with
    | top _ => simp
    | unset _ _ _ => simp
    | @step x q qs hq hactive _ _ ih =>
        intro hmem hbelow before after haround hx hx' y hy
        obtain ⟨l, r, hlr⟩ := List.append_of_mem hactive
        obtain ⟨hq₁, hq₂⟩ := h.splice_step (hmem q (by simp)) hlr hbelow hx hx'
        have haround' := haround.above hlr
        rcases List.mem_cons.1 hy with rfl | hy
        · exact ⟨_, _, haround', hq₁, hq₂⟩
        · exact ih (fun z hz => hmem z (List.mem_cons_of_mem _ hz))
            (.head (Body.owned_of_active hactive) hbelow) _ _ haround' hq₁ hq₂ y hy
  exact hup c.root ps h.climb (fun _ hq => hq) .refl [] [] .here (by simpa using hold)
    (by simpa using hnew) p hp

end Edited

end Tessera
