/-
**Changes that travel up.**

After an edit below a node, every node of the tree is in order, except that the content of the active
parent of the edited node may no longer be made up of the contents of its parts.  Composing that
parent anew moves the gap one step up.  It closes at the first ancestor that holds no content, or where
there is no further active parent.

Main definitions:

* `Tessera.Tree.Climb` — the ancestors that a change reaches;
* `Tessera.Tree.Retold` — only contents of some nodes changed;
* `Tessera.Pending` — all nodes are in order, except for the content of one parent.

Main results:

* `Tessera.Pending.recompose` — **composing the parent anew moves the gap one step up**;
* `Tessera.Edit.propagateUp_invariant` — carrying a change up keeps what each new content keeps;
* `Tessera.Edit.propagateUp_climbs` — **a change reaches exactly the ancestors of the climb**, and
  leaves the whole tree in order.
-/

import Tessera.Proofs.Tree.Gardens

set_option autoImplicit false

namespace Tessera

open Branch Tessera.Tree

variable {t t' t'' : Tree} {parent : Option NodeId} {id n m p x : NodeId} {ids ids' ps : List NodeId}
  {roots : List Branch} {b b' c : Branch} {e : Edit}

/-! ### Active parents -/

theorem Body.dependsOn_iff {body : Body}
    (h : ∀ items separators, body = .separated items separators →
      separators.length ≤ items.length) :
    body.dependsOn id = true ↔ id ∈ body.active := by
  cases body with
  | leaf => simp [Body.dependsOn, Body.active]
  | sequence children => simp [Body.dependsOn, Body.active]
  | choice alternatives current =>
      cases current with
      | none => simp [Body.dependsOn, Body.active, Body.currentOf]
      | some i => simp [Body.dependsOn, Body.active, Body.currentOf]
  | optional child present => cases present <;> simp [Body.dependsOn, Body.active]
  | loop items => simp [Body.dependsOn, Body.active]
  | separated items separators =>
      rw [Body.active, Body.interleave_eq (h items separators rfl), mem_interleave_iff]
      simp [Body.dependsOn]

namespace Tree

/-- A loop has no more separators than items. -/
theorem Formed.length_separators (h : t.Formed id) {items separators : List NodeId}
    (hbody : (t.node id).body = .separated items separators) : separators.length ≤ items.length := by
  unfold Formed at h
  split at h
  · obtain ⟨_, h, _⟩ := h
    simp [h] at hbody
  · obtain ⟨_, _, h, _⟩ := h
    simp [h] at hbody
  · obtain ⟨_, _, h, _⟩ := h
    simp [h] at hbody
  · obtain ⟨_, h, _⟩ := h
    simp [h] at hbody
  · obtain ⟨_, _, h, _, _, hlength⟩ := h
    rw [h] at hbody
    cases hbody
    omega
  · simp [h] at hbody

/-- The active parent of a node is its parent, when the node is among the active parts of it. -/
theorem activeParent?_eq_some (h : ∀ p, (t.node id).parent = some p → t.Formed p) :
    t.activeParent? id = some p ↔
      (t.node id).parent = some p ∧ id ∈ (t.node p).body.active := by
  rw [activeParent?, Option.filter_eq_some_iff]
  refine and_congr_right fun hp => ?_
  exact Body.dependsOn_iff fun items separators hbody => (h p hp).length_separators hbody

/-- The ancestors that a change of a node reaches, from below: each depends on the one before, and
all of them hold contents. -/
inductive Climb (t : Tree) : NodeId → List NodeId → Prop
  | top {n : NodeId} (h : ∀ p, (t.node n).parent = some p → n ∉ (t.node p).body.active) : Climb t n []
  | unset {n p : NodeId} (hp : (t.node n).parent = some p) (hactive : n ∈ (t.node p).body.active)
      (h : (t.node p).content = none) : Climb t n []
  | step {n p : NodeId} {ps : List NodeId} (hp : (t.node n).parent = some p)
      (hactive : n ∈ (t.node p).body.active) (h : (t.node p).content.isSome) (hps : Climb t p ps) :
      Climb t n (p :: ps)

/-- The climb goes the same way when the ancestors keep their parts and parents, and no content of
them comes or goes. -/
theorem Climb.congr (h : t.Climb n ps) (S : NodeId → Prop)
    (hS : ∀ x p, x = n ∨ S x → (t.node x).parent = some p → S p)
    (hn : (t'.node n).parent = (t.node n).parent)
    (hstays : ∀ x, S x → (t.node x).Stays (t'.node x))
    (hset : ∀ x, S x → (t'.node x).content.isSome = (t.node x).content.isSome) : t'.Climb n ps := by
  induction h with
  | @top n h =>
      refine .top fun p hp => ?_
      rw [hn] at hp
      rw [(hstays p (hS n p (.inl rfl) hp)).body]
      exact h p hp
  | @unset n p hp hactive h =>
      have hpS := hS n p (.inl rfl) hp
      refine .unset (hn.trans hp) ?_ ?_
      · rw [(hstays p hpS).body]
        exact hactive
      · have := hset p hpS
        rw [h] at this
        simpa using this
  | @step n p ps hp hactive h _ ih =>
      have hpS := hS n p (.inl rfl) hp
      refine .step (hn.trans hp) ?_ ?_ (ih (fun x q hx => ?_) (hstays p hpS).parent)
      · rw [(hstays p hpS).body]
        exact hactive
      · rw [hset p hpS]
        exact h
      · rcases hx with rfl | hx
        · exact hS x q (.inr hpS)
        · exact hS x q (.inr hx)

/-! ### Changes of contents -/

/-- Nothing changed but the contents of some nodes. -/
structure Retold (t t' : Tree) (ids : List NodeId) : Prop where
  grammar : t'.grammar = t.grammar
  nextListener : t'.nextListener = t.nextListener
  size : t'.slots.size = t.slots.size
  free : t'.free = t.free
  stays : ∀ i, (t.slot i).Stays (t'.slot i)
  listeners : ∀ i, (t'.slot i).listeners = (t.slot i).listeners
  same : ∀ i, i ∉ ids.map NodeId.index → t'.slot i = t.slot i

namespace Retold

theorem refl (t : Tree) : Retold t t [] :=
  ⟨rfl, rfl, rfl, rfl, fun _ => .refl _, fun _ => rfl, fun _ _ => rfl⟩

theorem trans (h : t.Retold t' ids) (h' : t'.Retold t'' ids') : t.Retold t'' (ids ++ ids') where
  grammar := h'.grammar.trans h.grammar
  nextListener := h'.nextListener.trans h.nextListener
  size := h'.size.trans h.size
  free := h'.free.trans h.free
  stays i :=
    have hi := h.stays i
    have hi' := h'.stays i
    ⟨hi'.generation.trans hi.generation, hi'.definition.trans hi.definition,
      hi'.parent.trans hi.parent, hi'.body.trans hi.body⟩
  listeners i := (h'.listeners i).trans (h.listeners i)
  same i hi := by
    rw [List.map_append, List.mem_append, not_or] at hi
    rw [h'.same i hi.2, h.same i hi.1]

theorem planted (h : t.Retold t' ids) (hp : Planted t roots) : Planted t' roots where
  count i := by rw [h.free, h.size]; exact hp.count i
  stands b hb := (hp.stands b hb).congr (Nat.le_of_eq h.size.symm) fun i _ => h.stays i
  vacant i hi := by
    rw [h.free] at hi
    have := hp.vacant i hi
    exact ⟨(h.stays i).body.trans this.body, (h.stays i).parent.trans this.parent⟩

theorem live_iff (h : t.Retold t' ids) : t'.Live id ↔ t.Live id := by
  constructor <;> rintro ⟨hsize, hfree, hgeneration⟩
  · exact ⟨h.size ▸ hsize, h.free ▸ hfree, (h.stays id.index).generation ▸ hgeneration⟩
  · exact ⟨h.size ▸ hsize, h.free ▸ hfree, (h.stays id.index).generation.trans hgeneration⟩

end Retold

/-- A node that takes a content. -/
theorem store_retold (hsize : id.index < e.tree.slots.size) (w : Text) :
    e.tree.Retold (e.store id w).tree [id] ∧
      ((e.store id w).tree.node id).content = some w := by
  have hself : (e.store id w).tree.slot id.index = { e.tree.slot id.index with content := some w } :=
    slot_modify_self hsize _
  have hother : ∀ i ≠ id.index, (e.store id w).tree.slot i = e.tree.slot i :=
    fun i hi => slot_modify_of_ne hi _
  have hslot : ∀ i, (e.tree.slot i).Stays ((e.store id w).tree.slot i) ∧
      ((e.store id w).tree.slot i).listeners = (e.tree.slot i).listeners := by
    intro i
    by_cases hi : i = id.index
    · subst hi
      rw [hself]
      exact ⟨⟨rfl, rfl, rfl, rfl⟩, rfl⟩
    · rw [hother i hi]
      exact ⟨.refl _, rfl⟩
  refine ⟨⟨rfl, rfl, size_modify _ _ _, rfl, fun i => (hslot i).1, fun i => (hslot i).2, ?_⟩, ?_⟩
  · intro i hi
    exact hother i (by simpa using hi)
  · rw [node_eq_slot, hself]

end Tree

/-- There is only one branch at a node. -/
theorem Branch.Stands.unique {parent' : Option NodeId} (h : b.Stands t parent)
    (h' : b'.Stands t parent') (hroot : b.root = b'.root) : b = b' := by
  induction h generalizing b' parent' with
  | @fork _ id parts _ _ _ howned hstands ih =>
      cases h' with
      | @fork _ id' parts' _ _ _ howned' hstands' =>
      obtain rfl : id = id' := hroot
      have hroots : parts.map Branch.root = parts'.map Branch.root := howned.symm.trans howned'
      have hparts : parts = parts' := by
        clear howned howned'
        induction parts generalizing parts' with
        | nil => exact (List.map_eq_nil_iff.1 hroots.symm).symm
        | cons p parts ih' =>
            cases parts' with
            | nil => simp at hroots
            | cons q parts' =>
                simp only [List.map_cons, List.cons.injEq] at hroots
                have hfirst := ih p (by simp) (hstands' q (by simp)) hroots.1
                have hrest := ih' (fun r hr => hstands r (List.mem_cons_of_mem _ hr))
                  (fun r hr => ih r (List.mem_cons_of_mem _ hr))
                  (fun r hr => hstands' r (List.mem_cons_of_mem _ hr)) hroots.2
                rw [hfirst, hrest]
      rw [hparts]

/-! ### The gap -/

/-- All nodes are in order, except that the parent of `n` may hold another content than its parts
make up. -/
structure Pending (t : Tree) (roots : List Branch) (n : NodeId) : Prop where
  planted : Planted t roots
  formed : ∀ x ∈ idsAll roots, t.Formed x
  settled : ∀ x ∈ idsAll roots, t.Settled x
  composed : ∀ x ∈ idsAll roots, t.Composed x ∨
    (t.node n).parent = some x ∧ n ∈ (t.node x).body.active

namespace Pending

/-- The gap closes where no ancestor depends on the node. -/
theorem garden (h : Pending t roots n)
    (hend : ∀ p, (t.node n).parent = some p → n ∈ (t.node p).body.active →
      (t.node p).content = none) : Garden t roots where
  toPlanted := h.planted
  sound x hx := by
    refine ⟨h.formed x hx, h.settled x hx, ?_⟩
    rcases h.composed x hx with hx | ⟨hp, hactive⟩
    · exact hx
    · intro w hw
      rw [hend x hp hactive] at hw
      cases hw

/-- **Composing the parent anew moves the gap one step up.** -/
theorem recompose (h : Pending e.tree roots n) (hn : n ∈ idsAll roots)
    (hp : (e.tree.node n).parent = some p) (hactive : n ∈ (e.tree.node p).body.active)
    (hset : (e.tree.node p).content.isSome) : Pending (e.recompose p).tree roots p := by
  obtain ⟨hpmem, -⟩ := h.planted.owner hn hp
  have hslot := h.planted.apart.lt_size (index_mem_slotsAll hpmem)
  obtain ⟨hr, hcontent⟩ := store_retold (e := e) hslot (Edit.composed e.tree p)
  change e.tree.Retold (e.recompose p).tree [p] at hr
  have hsame : ∀ x ∈ idsAll roots, x ≠ p → (e.recompose p).tree.node x = e.tree.node x := by
    intro x hx hne
    refine hr.same _ ?_
    rw [List.map_singleton, List.mem_singleton]
    exact fun heq => hne (h.planted.eq_of_index hx hpmem heq)
  have hset' : ∀ x ∈ idsAll roots,
      ((e.recompose p).tree.node x).content.isSome = (e.tree.node x).content.isSome := by
    intro x hx
    by_cases hxp : x = p
    · subst hxp
      rw [hset, Edit.recompose, hcontent]
      rfl
    · rw [hsame x hx hxp]
  have hparts : ∀ x ∈ idsAll roots, ∀ c ∈ (e.tree.node x).body.active, c ∈ idsAll roots ∧
      (e.tree.node c).parent = some x :=
    fun x hx c hc => h.planted.owned_mem hx (Body.owned_of_active hc)
  refine ⟨hr.planted h.planted, fun x hx => ?_, fun x hx => ?_, fun x hx => ?_⟩
  · exact (h.formed x hx).congr hr.grammar (hr.stays _) fun c _ => (hr.stays c.index).definition
  · refine (h.settled x hx).congr hr.grammar (hr.stays _) (hset' x hx) fun c hc hsome => ?_
    rw [hset' c (hparts x hx c hc).1]
    exact hsome
  · by_cases hxp : x = p
    · -- the parent itself: its parts are other nodes, and they make up its new content
      subst hxp
      left
      intro w hw
      have hstays : (e.tree.node x).Stays ((e.recompose x).tree.node x) := hr.stays _
      have hleaf : ¬ ((e.recompose x).tree.shapeOf x).isLeaf = true := by
        unfold shapeOf
        rw [hr.grammar, hstays.definition]
        intro hleaf
        have hbody := (formed_leaf_iff hleaf).1 (h.formed x hx)
        rw [hbody] at hactive
        simp [Body.active] at hactive
      rw [if_neg hleaf]
      rw [Edit.recompose, hcontent] at hw
      rw [← Option.some.inj hw, Edit.composed, hstays.body]
      refine (contents_congr fun c hc => ?_).symm
      rw [hsame c (hparts x hx c hc).1 (h.planted.ne_of_owned hx (Body.owned_of_active hc))]
    · rcases h.composed x hx with hx' | ⟨hp', -⟩
      · by_cases hdep : p ∈ (e.tree.node x).body.active
        · right
          have hpparent := (hparts x hx p hdep).2
          rw [node_eq_slot, (hr.stays _).parent, node_eq_slot, (hr.stays _).body]
          exact ⟨hpparent, hdep⟩
        · left
          refine hx'.congr hr.grammar (hr.stays _) (by rw [hsame x hx hxp]) fun c hc => ?_
          rw [hsame c (hparts x hx c hc).1]
          rintro rfl
          exact hdep hc
      · obtain rfl := Option.some.inj (hp.symm.trans hp')
        exact absurd rfl hxp

end Pending

/-- The branch at the parent of a node has more nodes than the branch at the node. -/
theorem Planted.length_lt (h : Planted t roots) (hn : n ∈ idsAll roots)
    (hc : c.Stands t parent) (hroot : c.root = n) (hp : (t.node n).parent = some p) :
    ∃ d : Branch, d.root = p ∧ d.Stands t (t.node p).parent ∧ c.ids.length < d.ids.length ∧
      d.ids.length ≤ t.slots.size := by
  obtain ⟨hpmem, howned⟩ := h.owner hn hp
  obtain ⟨b, d, hb, hin, rfl, hd⟩ := h.exists_branch hpmem
  refine ⟨d, rfl, hd, ?_, ?_⟩
  · cases hd with
    | fork _ _ _ hparts hstands =>
        rw [root_fork, hparts] at howned
        obtain ⟨q, hq, hqroot⟩ := List.mem_map.1 howned
        obtain rfl := (hstands q hq).unique hc (hqroot.trans hroot.symm)
        obtain ⟨l, r, rfl⟩ := List.append_of_mem hq
        simp only [ids_fork, idsAll_append, idsAll_cons, List.length_cons, List.length_append]
        omega
  · have hle : t.Apart d.slots := h.apart.mono fun i =>
      Nat.le_trans (hin.count_le i) (count_le_slotsAll hb i)
    simpa [Branch.slots] using hle.length_le

/-- The ancestors that a change reaches are live, and have larger branches than the node. -/
theorem Planted.climb_length (h : Planted t roots) (hn : n ∈ idsAll roots)
    (hc : c.Stands t parent) (hroot : c.root = n) (hps : t.Climb n ps) (hp : p ∈ ps) :
    p ∈ idsAll roots ∧ ∃ (d : Branch) (parent : Option NodeId), d.root = p ∧ d.Stands t parent ∧
      c.ids.length < d.ids.length := by
  induction hps generalizing c parent with
  | top _ => simp at hp
  | unset _ _ _ => simp at hp
  | step hparent _ _ _ ih =>
      obtain ⟨d, hdroot, hd, hlt, -⟩ := h.length_lt hn hc hroot hparent
      obtain ⟨hqmem, -⟩ := h.owner hn hparent
      rcases List.mem_cons.1 hp with rfl | hp
      · exact ⟨hqmem, d, _, hdroot, hd, hlt⟩
      · obtain ⟨hpmem, d', parent', hd'root, hd', hlt'⟩ := ih hqmem hd hdroot hp
        exact ⟨hpmem, d', parent', hd'root, hd', by omega⟩

theorem Planted.mem_of_climb (h : Planted t roots) (hn : n ∈ idsAll roots) (hps : t.Climb n ps)
    (hp : p ∈ ps) : p ∈ idsAll roots := by
  obtain ⟨b, c, hb, hin, hroot, hc⟩ := h.exists_branch hn
  exact (h.climb_length hn hc hroot hps hp).1

/-- A node is none of the ancestors that its change reaches, and none of them is reached twice. -/
theorem Planted.nodup_climb (h : Planted t roots) (hn : n ∈ idsAll roots) (hps : t.Climb n ps) :
    (n :: ps).Nodup := by
  induction hps with
  | top _ => simp
  | unset _ _ _ => simp
  | @step n p ps hp hactive hset hps ih =>
      refine List.nodup_cons.2 ⟨fun hmem => ?_, ih (h.owner hn hp).1⟩
      obtain ⟨b, c, hb, hin, hroot, hc⟩ := h.exists_branch hn
      obtain ⟨-, d, parent, hdroot, hd, hlt⟩ :=
        h.climb_length hn hc hroot (.step hp hactive hset hps) hmem
      obtain rfl := hd.unique hc (hdroot.trans hroot.symm)
      omega

namespace Edit

/-- The report of an ancestor whose content was composed anew. -/
def recomposedNotice (t t' : Tree) (p : NodeId) : Notice :=
  ⟨p, (t.node p).content, (t'.node p).content.getD [], (t.node p).listeners⟩

/-- What carrying a change to the ancestors does: it reaches the nodes `ps`. -/
structure Climbs (e e' : Edit) (roots : List Branch) (n : NodeId) (ps : List NodeId) : Prop where
  climb : e.tree.Climb n ps
  retold : e.tree.Retold e'.tree ps
  set : ∀ p ∈ ps, (e'.tree.node p).content.isSome
  notices : e'.notices = (ps.map (recomposedNotice e.tree e'.tree)).reverse ++ e.notices
  garden : Garden e'.tree roots

/-- One ancestor is composed anew before those above it. -/
theorem Climbs.step {e' : Edit} (h : (e.recompose p).Climbs e' roots p ps)
    (hplanted : Planted e.tree roots) (hn : n ∈ idsAll roots)
    (hp : (e.tree.node n).parent = some p) (hactive : n ∈ (e.tree.node p).body.active)
    (hset : (e.tree.node p).content.isSome) (hr : e.tree.Retold (e.recompose p).tree [p])
    (hcontent : ((e.recompose p).tree.node p).content = some (composed e.tree p)) :
    e.Climbs e' roots n (p :: ps) := by
  obtain ⟨hpmem, -⟩ := hplanted.owner hn hp
  have hset' : ∀ x, ((e.recompose p).tree.node x).content.isSome =
      (e.tree.node x).content.isSome := by
    intro x
    by_cases hx : x.index = p.index
    · rw [node_eq_slot, hx, ← node_eq_slot, hcontent, node_eq_slot, hx, ← node_eq_slot, hset]
      rfl
    · rw [node_eq_slot, hr.same _ (by simpa using hx)]
      rfl
  have hclimb : e.tree.Climb p ps :=
    h.climb.congr (fun _ => True) (fun _ _ _ _ => trivial) (hr.stays p.index).parent.symm
      (fun x _ => (hr.stays x.index).symm) fun x _ => (hset' x).symm
  -- the ancestors further up lie in other slots
  have hother : ∀ q ∈ ps, q.index ≠ p.index := by
    intro q hq heq
    have hqmem := hplanted.mem_of_climb hpmem hclimb hq
    obtain rfl := hplanted.eq_of_index hqmem hpmem heq
    exact (List.nodup_cons.1 (hplanted.nodup_climb hpmem hclimb)).1 hq
  have hpslot : p.index ∉ ps.map NodeId.index := by
    intro hmem
    obtain ⟨q, hq, heq⟩ := List.mem_map.1 hmem
    exact hother q hq heq
  have hfinal : (e'.tree.node p).content = some (composed e.tree p) := by
    rw [node_eq_slot, h.retold.same _ hpslot]
    exact hcontent
  refine ⟨.step hp hactive hset hclimb, hr.trans h.retold, fun q hq => ?_, ?_, h.garden⟩
  · rcases List.mem_cons.1 hq with rfl | hq
    · rw [hfinal]
      rfl
    · exact h.set q hq
  · have hnotices : ps.map (recomposedNotice (e.recompose p).tree e'.tree) =
        ps.map (recomposedNotice e.tree e'.tree) := by
      refine List.map_congr_left fun q hq => ?_
      have hsame : (e.recompose p).tree.node q = e.tree.node q :=
        hr.same _ (by simpa using hother q hq)
      rw [recomposedNotice, recomposedNotice, hsame]
    have hself : recomposedNotice e.tree e'.tree p =
        ⟨p, (e.tree.node p).content, composed e.tree p, (e.tree.node p).listeners⟩ := by
      rw [recomposedNotice, hfinal]
      rfl
    rw [h.notices, hnotices, List.map_cons, List.reverse_cons, hself, List.append_assoc]
    rfl

/-- A change is carried up step by step. -/
theorem propagate_climbs (fuel : Nat) (h : Pending e.tree roots n) (hn : n ∈ idsAll roots)
    (hc : c.Stands e.tree parent) (hroot : c.root = n)
    (hfuel : e.tree.slots.size < fuel + c.ids.length) :
    ∃ ps, e.Climbs (propagate fuel n e) roots n ps := by
  induction fuel generalizing e n c parent with
  | zero =>
      -- there is no room for a branch of this size
      exfalso
      obtain ⟨b, d, hb, hin, hdroot, hd⟩ := h.planted.exists_branch hn
      obtain rfl := hd.unique hc (hdroot.trans hroot.symm)
      have hle : e.tree.Apart d.slots := h.planted.apart.mono fun i =>
        Nat.le_trans (hin.count_le i) (count_le_slotsAll hb i)
      have := hle.length_le
      simp only [Branch.slots, List.length_map] at this
      omega
  | succ fuel ih =>
      have hformed : ∀ p, (e.tree.node n).parent = some p → e.tree.Formed p :=
        fun p hp => h.formed p (h.planted.owner hn hp).1
      rw [propagate]
      cases hactive : e.tree.activeParent? n with
      | none =>
          have hnot : ∀ p, (e.tree.node n).parent = some p → n ∉ (e.tree.node p).body.active := by
            intro p hp hmem
            rw [(activeParent?_eq_some hformed).2 ⟨hp, hmem⟩] at hactive
            cases hactive
          exact ⟨[], .top hnot, .refl _, by simp, rfl,
            h.garden fun p hp hmem => absurd hmem (hnot p hp)⟩
      | some p =>
          obtain ⟨hp, hmem⟩ := (activeParent?_eq_some hformed).1 hactive
          by_cases hset : (e.tree.node p).content = none
          · simp only [hset, Option.isNone_none, if_true]
            refine ⟨[], .unset hp hmem hset, .refl _, by simp, rfl, h.garden fun q hq _ => ?_⟩
            obtain rfl := Option.some.inj (hp.symm.trans hq)
            exact hset
          · have hset : (e.tree.node p).content.isSome = true := Option.isSome_iff_ne_none.2 hset
            have hnone : (e.tree.node p).content.isNone = false := by simpa using hset
            simp only [hnone, Bool.false_eq_true, if_false]
            obtain ⟨hpmem, -⟩ := h.planted.owner hn hp
            obtain ⟨hr, hcontent⟩ := store_retold (e := e)
              (h.planted.apart.lt_size (index_mem_slotsAll hpmem)) (composed e.tree p)
            change e.tree.Retold (e.recompose p).tree [p] at hr
            change ((e.recompose p).tree.node p).content = _ at hcontent
            obtain ⟨d, hdroot, hd, hlt, -⟩ := h.planted.length_lt hn hc hroot hp
            have hpending := h.recompose hn hp hmem hset
            obtain ⟨ps, hps⟩ := ih hpending hpmem
              (hd.congr (Nat.le_of_eq hr.size.symm) fun i _ => hr.stays i) hdroot
              (by rw [hr.size]; omega)
            exact ⟨p :: ps, hps.step h.planted hn hp hmem hset hr hcontent⟩

/-- Carrying a change up keeps what each new content of a node keeps. -/
theorem propagateUp_invariant {P : Tree → Prop}
    (hstore : ∀ (e : Edit) (id : NodeId) (w : Text), P e.tree → P (e.store id w).tree)
    (h : P e.tree) (id : NodeId) : P (propagateUp id e).tree := by
  have hrun : ∀ fuel id (e : Edit), P e.tree → P (propagate fuel id e).tree := by
    intro fuel
    induction fuel with
    | zero => exact fun _ _ h => h
    | succ fuel ih =>
        intro id e h
        rw [propagate]
        split
        · exact h
        · split
          · exact h
          · exact ih _ _ (hstore e _ _ h)
  exact hrun _ id e h

/-- **A change reaches exactly the ancestors of the climb**, and leaves the whole tree in order. -/
theorem propagateUp_climbs (h : Pending e.tree roots n) (hn : n ∈ idsAll roots) :
    ∃ ps, e.Climbs (propagateUp n e) roots n ps := by
  obtain ⟨b, c, hb, hin, hroot, hc⟩ := h.planted.exists_branch hn
  exact propagate_climbs (e.tree.slots.size + 1) h hn hc hroot (by omega)

end Edit

end Tessera
