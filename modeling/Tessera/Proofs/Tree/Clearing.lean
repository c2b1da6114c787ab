/-
**Releasing and clearing.**

Releasing a branch gives back the slots of exactly its nodes, each once.  Clearing a branch takes the
contents away and releases the elements of loops; all other nodes are kept.

Main definitions:

* `Tessera.Tree.Cleared` — a branch stays, without a content, and with what clearing passes by;
* `Tessera.Tree.Emptied` — a node lost its content and its selection, and its parts are as they were.

Main results:

* `Tessera.Tree.release_regrown` — **a released branch is gone, and each of its slots was given back
  once**;
* `Tessera.Tree.reset_regrown` — **a cleared branch is in order and has no content**, clearing it again
  would release nothing, and it is blank when the alternatives that clearing passes by were.
-/

import Tessera.Proofs.Tree.Leftovers

set_option autoImplicit false

namespace Tessera

open Branch Tessera.Tree

variable {t t' t'' : Tree} {parent : Option NodeId} {id : NodeId} {b : Branch}
  {bs bs' cs l ps ps' r : List Branch} {freed : List Nat} {fuel : Nat}

/-! ### Releasing -/

/-- Branches are taken away one after the other. -/
theorem Grove.foldl_release {f : Tree → NodeId → Tree} (h : Grove t parent bs)
    (hf : ∀ b ∈ bs, ∀ s, Grove s parent [b] → ∃ freed, Regrown s (f s b.root) parent [b] [] freed ∧
      ∀ i, freed.count i = b.slots.count i) :
    ∃ freed, Regrown t ((bs.map Branch.root).foldl f t) parent bs [] freed ∧
      ∀ i, freed.count i = (slotsAll bs).count i := by
  induction bs generalizing t with
  | nil => exact ⟨[], .refl h, fun _ => rfl⟩
  | cons b bs ih =>
      have h : Grove t parent ([b] ++ bs) := h
      obtain ⟨freed, hb, hcount⟩ := hf b List.mem_cons_self t h.left
      obtain ⟨freed', hbs, hcount'⟩ :=
        ih (hb.rest h).1 fun c hc => hf c (List.mem_cons_of_mem _ hc)
      refine ⟨freed ++ freed', (hb.append h hbs).1, fun i => ?_⟩
      rw [slotsAll_cons, List.count_append, List.count_append, hcount, hcount']

/-- An opened node is taken away once its parts are on their own. -/
theorem Opened.vacate (h : Opened t parent id ps) :
    t.Rework (t.vacate id) (id.index :: slotsAll ps) (slotsAll ps) [id.index] ∧
      Grove (t.vacate id) (some id) ps := by
  have hone : t.Apart [id.index] := h.apart.mono fun i => by
    simp only [List.count_cons, List.count_nil]
    omega
  have hbefore : ∀ i, (id.index :: slotsAll ps).count i =
      (slotsAll ps).count i + [id.index].count i := by
    intro i
    simp only [List.count_cons, List.count_nil]
    omega
  refine ⟨(vacate_rework hone).within h.apart hbefore (by simp), ?_⟩
  refine h.grove.frame (vacate_rework hone) (h.apart.mono fun i => ?_)
  exact Nat.le_of_eq (by rw [hbefore, List.count_append])

/-- The parts of a node have fewer nodes below them than the node. -/
theorem Branch.length_part_le {p : Branch} (hp : p ∈ ps)
    (hfuel : (Branch.fork id ps).ids.length ≤ fuel + 1) : p.ids.length ≤ fuel := by
  obtain ⟨l, r, rfl⟩ := List.append_of_mem hp
  simp only [ids_fork, idsAll_append, idsAll_cons, List.length_cons, List.length_append] at hfuel
  omega

namespace Tree

/-- Releasing one branch. -/
theorem releaseNode_regrown (h : Grove t parent [b]) (hfuel : b.ids.length ≤ fuel) :
    ∃ freed, Regrown t (releaseNode fuel t b.root) parent [b] [] freed ∧
      ∀ i, freed.count i = b.slots.count i := by
  induction fuel generalizing t parent b with
  | zero =>
      cases b
      simp at hfuel
  | succ fuel ih =>
      cases b with
      | fork id ps =>
      obtain ⟨hopened, howned, -⟩ := Opened.of_grove h
      have hlookup : t.lookup? id = some (t.node id) :=
        lookup?_eq_some.2 ⟨hopened.size, hopened.generation, rfl⟩
      obtain ⟨hr, hgrove⟩ := hopened.vacate
      -- the parts go from the last to the first
      obtain ⟨freed, hparts, hcount⟩ := Grove.foldl_release (f := releaseNode fuel)
        (hgrove.perm ps.reverse_perm.symm)
        fun p hp s hs => ih hs (length_part_le (List.mem_reverse.1 hp) hfuel)
      have hparts : Regrown (t.vacate id) (releaseNode (fuel + 1) t id) (some id) ps [] freed := by
        rw [releaseNode, hlookup]
        simp only [howned, ← List.map_reverse]
        exact hparts.perm (hgrove.perm ps.reverse_perm.symm) ps.reverse_perm (.refl _)
      have hall := hr.trans hparts.rework
      refine ⟨[id.index] ++ freed, ⟨by simpa using hall, .nil hparts.grove.apart⟩, fun i => ?_⟩
      have := hcount i
      rw [count_slotsAll_perm ps.reverse_perm] at this
      simp only [slots_fork, List.cons_append, List.nil_append, List.count_cons, this]

/-- **A released branch is gone, and each of its slots was given back once.** -/
theorem release_regrown (h : Grove t parent bs) :
    ∃ freed, Regrown t (t.release (bs.map Branch.root)) parent bs [] freed ∧
      ∀ i, freed.count i = (slotsAll bs).count i := by
  have hlength : ∀ b ∈ bs, b.ids.length ≤ t.slots.size + 1 := by
    intro b hb
    obtain ⟨l, r, rfl⟩ := List.append_of_mem hb
    have := h.apart.length_le
    simp only [slotsAll_append, slotsAll_cons, Branch.slots, List.length_append, List.length_map]
      at this
    omega
  obtain ⟨freed, hr, hcount⟩ := Grove.foldl_release (f := releaseNode (t.slots.size + 1))
    (h.perm bs.reverse_perm.symm)
    fun b hb s hs => releaseNode_regrown hs (hlength b (List.mem_reverse.1 hb))
  refine ⟨freed, ?_, fun i => by rw [hcount, count_slotsAll_perm bs.reverse_perm]⟩
  rw [release, ← List.map_reverse]
  exact hr.perm (h.perm bs.reverse_perm.symm) bs.reverse_perm (.refl _)

/-- Releasing branches and then those next to them. -/
theorem release_release_regrown (h : Grove t parent (bs ++ cs)) :
    ∃ freed, Regrown t ((t.release (bs.map Branch.root)).release (cs.map Branch.root)) parent
      (bs ++ cs) [] freed ∧ ∀ i, freed.count i = (slotsAll (bs ++ cs)).count i := by
  obtain ⟨freed, hbs, hcount⟩ := release_regrown h.left
  obtain ⟨freed', hcs, hcount'⟩ := release_regrown (hbs.rest h).1
  refine ⟨freed ++ freed', (hbs.append h hcs).1, fun i => ?_⟩
  rw [List.count_append, hcount, hcount', count_slotsAll_append]

end Tree

/-! ### Clearing -/

namespace Tree

/-- A branch was cleared: it stays with all its nodes except the elements of loops, in order and without
a content.  Clearing it again would release nothing, and nothing is left in it when the alternatives
that clearing passes by were blank. -/
def Cleared (t t' : Tree) (parent : Option NodeId) (b : Branch) : Prop :=
  ∃ b' freed, b'.root = b.root ∧ Regrown t t' parent [b] [b'] freed ∧ Spared [b] freed ∧
    (t'.node b.root).content = none ∧ t'.Drained b.root ∧ (t'.Blank b.root ↔ t.Clearable b.root)

/-- A function clears a branch, wherever it stands. -/
def Clears (f : Tree → NodeId → Tree) (b : Branch) : Prop :=
  ∀ (t : Tree) (parent : Option NodeId), Grove t parent [b] → Cleared t (f t b.root) parent b

end Tree

/-- Branches are cleared one after the other. -/
theorem Grove.foldl_reset {f : Tree → NodeId → Tree} (h : Grove t parent bs)
    (hf : ∀ b ∈ bs, Clears f b) :
    ∃ bs' freed, bs'.map Branch.root = bs.map Branch.root ∧
      Regrown t ((bs.map Branch.root).foldl f t) parent bs bs' freed ∧ Spared bs freed ∧
      (∀ c ∈ bs.map Branch.root, ((bs.map Branch.root).foldl f t).Drained c) ∧
      ∀ c ∈ bs.map Branch.root, ((bs.map Branch.root).foldl f t).Blank c ↔ t.Clearable c := by
  induction bs generalizing t with
  | nil => exact ⟨[], [], rfl, .refl h, .nil [], by simp, by simp⟩
  | cons b bs ih =>
      have h : Grove t parent ([b] ++ bs) := h
      obtain ⟨b', freed, hroot, hb, hspared, -, hdrained, hblank⟩ :=
        hf b List.mem_cons_self t parent h.left
      obtain ⟨hrest, hbefore⟩ := hb.rest h
      obtain ⟨bs', freed', hroots, hbs, hspared', hdraineds, hblanks⟩ :=
        ih hrest fun c hc => hf c (List.mem_cons_of_mem _ hc)
      obtain ⟨hall, hafter⟩ := hb.append h hbs
      have hmem : b.root ∈ idsAll [b'] := Grove.root_mem (by simp [hroot])
      refine ⟨b' :: bs', freed ++ freed', ?_, hall, hspared.append hspared' h.apart, fun c hc => ?_,
        fun c hc => ?_⟩
      · rw [List.map_cons, List.map_cons, hroot, hroots]
      · rcases List.mem_cons.1 hc with rfl | hc
        · exact hb.grove.drained_congr (fun x hx => congrArg Node.body (hafter x hx)) hmem hdrained
        · exact hdraineds c hc
      rcases List.mem_cons.1 hc with rfl | hc
      · rw [List.map_cons, List.foldl_cons, ← hblank]
        exact hb.grove.blank_congr hafter hmem
      · rw [List.map_cons, List.foldl_cons, hblanks c hc]
        exact h.right.clearable_congr hbefore (Grove.root_mem hc)

/-- Branches are cleared one after the other, from the last to the first. -/
theorem Grove.foldl_reset_reverse {f : Tree → NodeId → Tree} (h : Grove t parent bs)
    (hf : ∀ b ∈ bs, Clears f b) :
    ∃ bs' freed, bs'.map Branch.root = bs.map Branch.root ∧
      Regrown t ((bs.map Branch.root).reverse.foldl f t) parent bs bs' freed ∧ Spared bs freed ∧
      (∀ c ∈ bs.map Branch.root, ((bs.map Branch.root).reverse.foldl f t).Drained c) ∧
      ∀ c ∈ bs.map Branch.root,
        ((bs.map Branch.root).reverse.foldl f t).Blank c ↔ t.Clearable c := by
  have hreverse := h.perm bs.reverse_perm.symm
  obtain ⟨bs', freed, hroots, hr, hspared, hdrained, hblank⟩ :=
    hreverse.foldl_reset fun b hb => hf b (List.mem_reverse.1 hb)
  rw [← List.map_reverse]
  refine ⟨bs'.reverse, freed, ?_, hr.perm hreverse bs.reverse_perm bs'.reverse_perm.symm,
    hspared.perm bs.reverse_perm, fun c hc => hdrained c (by simpa using hc),
    fun c hc => hblank c (by simpa using hc)⟩
  rw [List.map_reverse, hroots, List.map_reverse, List.reverse_reverse]

/-- Where some branches are cleared, those next to them are left alone. -/
theorem Regrown.blank_iff (h : Regrown t t' parent bs bs' freed) (hg : Grove t parent (l ++ bs ++ r))
    (hblank : ∀ c ∈ bs.map Branch.root, t'.Blank c ↔ t.Clearable c) {c : NodeId}
    (hc : c ∈ (l ++ bs ++ r).map Branch.root) :
    t'.Blank c ↔ if c ∈ bs.map Branch.root then t.Clearable c else t.Blank c := by
  split
  · next h => exact hblank c h
  · next hnot =>
    have hrest := hg.perm (middle_perm l bs r)
    refine hrest.right.blank_congr (h.rest hrest).2 (Grove.root_mem ?_)
    simp only [List.map_append, List.mem_append] at hc ⊢
    tauto

/-- A node that was cleared is in order. -/
theorem Tree.Sound.cleared (h : t.Sound id) (hgrammar : t'.grammar = t.grammar)
    (hself : t'.node id = { t.node id with content := none, body := (t.node id).body.cleared })
    (hparts : ∀ c ∈ (t.node id).body.cleared.owned,
      (t'.node c).definition = (t.node c).definition) : t'.Sound id := by
  have hshape : t'.shapeOf id = t.shapeOf id := by
    rw [shapeOf, shapeOf, hgrammar, hself]
  have hcontent : (t'.node id).content = none := by rw [hself]
  have hbody : (t'.node id).body = (t.node id).body.cleared := by rw [hself]
  refine ⟨?_, ⟨?_, ?_, ?_, ?_⟩, ?_⟩
  · have hformed := h.formed
    unfold Formed at hformed ⊢
    rw [hshape, hbody]
    split at hformed
    · obtain ⟨children, hbody, hdefs⟩ := hformed
      rw [hbody] at hparts ⊢
      exact ⟨children, rfl, by rw [← hdefs]; exact List.map_congr_left hparts⟩
    · obtain ⟨alternatives, current, hbody, hlength, hdefs, -⟩ := hformed
      rw [hbody] at hparts ⊢
      refine ⟨alternatives, none, rfl, hlength, fun i c hc => ?_, by simp⟩
      rw [hparts c (List.mem_filterMap.2 ⟨some c, List.mem_of_getElem? hc, rfl⟩)]
      exact hdefs i c hc
    · obtain ⟨child, present, hbody, hdef, -⟩ := hformed
      rw [hbody] at hparts ⊢
      refine ⟨child, false, rfl, fun c hc => ?_, by simp⟩
      rw [hparts c (by simp [hc, Body.cleared, Body.owned])]
      exact hdef c hc
    · obtain ⟨items, hbody, -⟩ := hformed
      rw [hbody]
      exact ⟨[], rfl, by simp⟩
    · obtain ⟨items, separators, hbody, -⟩ := hformed
      rw [hbody]
      exact ⟨[], [], rfl, by simp, by simp, rfl⟩
    · rw [hformed]
      rfl
  · intro _
    rw [hbody]
    cases (t.node id).body <;> simp [Body.cleared, Body.Idle]
  · simp [hcontent]
  · simp [hcontent]
  · simp [hcontent]
  · intro w hw
    simp [hcontent] at hw

/-- A node whose parts were brought in order is cleared as a whole. -/
theorem Reopened.cleared (h : Reopened t t' parent id ps ps' freed) (ho : Opened t parent id ps)
    (hsound : t.Sound id)
    (hself : t'.node id = { t.node id with content := none, body := (t.node id).body.cleared })
    (howned : (t.node id).body.cleared.owned = ps'.map Branch.root)
    (hspared : ∀ i, freed.count i ≤ (slotsAll ps).count i)
    (hkept : ∀ c ∈ (t.node id).body.cleared.owned, c ∈ idsAll ps ∧ c.index ∉ freed)
    (hdrained : ∀ c ∈ (t.node id).body.cleared.swept, t'.Drained c)
    (hparts : ∀ c ∈ (t.node id).body.cleared.owned, t'.Blank c ↔ t.LeavesBlank id c) :
    Cleared t t' parent (.fork id ps) := by
  refine ⟨.fork id ps', freed, rfl, h.close (by rw [hself, ← howned]) ?_,
    Reopened.spared_fork ho hspared, ?_, .node ?_ ?_, blank_cleared_iff hself hparts⟩
  · refine hsound.cleared h.rework.grammar hself fun c hc => ?_
    exact (h.persists ho (hkept c hc).1 (hkept c hc).2).definition
  · rw [root_fork, hself]
  · rw [root_fork, hself]
    exact Body.idle_cleared _
  · rw [root_fork, hself]
    exact hdrained

/-- Taking the content of a node away. -/
theorem Opened.clearContent (h : Opened t parent id ps) :
    Reopened t (t.clearContent id) parent id ps ps [] ∧
      (t.clearContent id).node id = { t.node id with content := none } ∧
      ∀ x ∈ idsAll ps, (t.clearContent id).node x = t.node x :=
  h.modify (f := fun n => { n with content := none }) ⟨rfl, rfl, rfl⟩ rfl

/-- Taking the content of a node and its selection away. -/
theorem Opened.clear (h : Opened t parent id ps) (body : Body) :
    Reopened t ((t.clearContent id).setBody id body) parent id ps ps [] ∧
      ((t.clearContent id).setBody id body).node id =
        { t.node id with content := none, body := body } ∧
      ∀ x ∈ idsAll ps, ((t.clearContent id).setBody id body).node x = t.node x := by
  obtain ⟨hclear, hself, hparts⟩ := h.clearContent
  obtain ⟨hbody, hself', hparts'⟩ := hclear.opened.setBody body
  rw [hself] at hself'
  exact ⟨hclear.trans hbody, hself', fun x hx => (hparts' x hx).trans (hparts x hx)⟩

/-- The roots of the parts are spared when each part spares its own. -/
theorem Spared.of_mem (h : Spared bs freed) {c : NodeId} (hc : c ∈ bs.map Branch.root) :
    c ∈ idsAll bs ∧ c.index ∉ freed := by
  obtain ⟨b, hb, rfl⟩ := List.mem_map.1 hc
  exact ⟨mem_idsAll.2 ⟨b, hb, b.root_mem_ids⟩, h.root b hb⟩

/-- The current alternative of a choice, if there is one, lies among its parts. -/
theorem Branch.exists_current {alternatives : List (Option NodeId)} {current : Option Nat}
    (h : (Body.choice alternatives current).owned = ps.map Branch.root) :
    ∃ l qs r, ps = l ++ qs ++ r ∧
      (Body.currentOf alternatives current).toList = qs.map Branch.root := by
  cases hcurrent : Body.currentOf alternatives current with
  | none => exact ⟨ps, [], [], by simp, rfl⟩
  | some c =>
      have hc : c ∈ ps.map Branch.root := by
        rw [← h]
        exact Body.owned_of_active (b := .choice alternatives current)
          (by simp [Body.active, hcurrent])
      obtain ⟨l, p, r, rfl, rfl⟩ := exists_part hc
      exact ⟨l, [p], r, by simp, rfl⟩

/-- The node lost its content and its selection, and its parts are as they were. -/
structure Tree.Emptied (t t' : Tree) (parent : Option NodeId) (id : NodeId) (ps : List Branch) :
    Prop where
  reopened : Reopened t t' parent id ps ps []
  self : t'.node id = { t.node id with content := none, body := (t.node id).body.cleared }
  parts : ∀ x ∈ idsAll ps, t'.node x = t.node x

namespace Tree.Emptied

/-- A node without a selection loses its content. -/
theorem of_clearContent (ho : Opened t parent id ps)
    (hbody : (t.node id).body.cleared = (t.node id).body) : Emptied t (t.clearContent id) parent id ps := by
  obtain ⟨hclear, hself, hparts⟩ := ho.clearContent
  exact ⟨hclear, by rw [hself, hbody], hparts⟩

/-- A node loses its content and its selection. -/
theorem of_clear (ho : Opened t parent id ps) {body : Body} (hbody : (t.node id).body.cleared = body) :
    Emptied t ((t.clearContent id).setBody id body) parent id ps := by
  obtain ⟨hclear, hself, hparts⟩ := ho.clear body
  exact ⟨hclear, by rw [hself, hbody], hparts⟩

/-- **Clearing goes on with the parts that it goes through**, and passes by those next to them. -/
theorem sweep (h : Emptied t t' parent id (l ++ bs ++ r)) (ho : Opened t parent id (l ++ bs ++ r))
    (hsound : t.Sound id)
    (howned : (t.node id).body.cleared.owned = (l ++ bs ++ r).map Branch.root)
    (hswept : (t.node id).body.swept = bs.map Branch.root)
    (hroots : bs'.map Branch.root = bs.map Branch.root) (hr : Regrown t' t'' (some id) bs bs' freed)
    (hspared : Spared bs freed) (hdrained : ∀ c ∈ bs.map Branch.root, t''.Drained c)
    (hblank : ∀ c ∈ bs.map Branch.root, t''.Blank c ↔ t'.Clearable c) :
    Cleared t t'' parent (.fork id (l ++ bs ++ r)) := by
  obtain ⟨hre, hself⟩ := h.reopened.opened.step hr
  rw [h.self] at hself
  replace hspared := hspared.among ho.grove.apart
  refine (h.reopened.trans hre).cleared ho hsound hself (howned.trans (by simp [hroots])) hspared.le
    (fun c hc => hspared.of_mem (howned ▸ hc))
    (fun c hc => hdrained c (hswept ▸ Body.swept_of_cleared hc)) fun c hc => ?_
  rw [howned] at hc
  rw [hr.blank_iff h.reopened.opened.grove hblank hc, LeavesBlank, hswept,
    ho.grove.clearable_congr h.parts (Grove.root_mem hc),
    ho.grove.blank_congr h.parts (Grove.root_mem hc)]

/-- Clearing goes through all parts. -/
theorem sweep_all (h : Emptied t t' parent id bs) (ho : Opened t parent id bs) (hsound : t.Sound id)
    (howned : (t.node id).body.cleared.owned = bs.map Branch.root)
    (hswept : (t.node id).body.swept = bs.map Branch.root)
    (hroots : bs'.map Branch.root = bs.map Branch.root) (hr : Regrown t' t'' (some id) bs bs' freed)
    (hspared : Spared bs freed) (hdrained : ∀ c ∈ bs.map Branch.root, t''.Drained c)
    (hblank : ∀ c ∈ bs.map Branch.root, t''.Blank c ↔ t'.Clearable c) :
    Cleared t t'' parent (.fork id bs) := by
  have hall : [] ++ bs ++ [] = bs := by simp
  have := sweep (l := []) (r := []) (hall.symm ▸ h) (hall.symm ▸ ho) hsound (hall.symm ▸ howned) hswept
    hroots hr hspared hdrained hblank
  rwa [hall] at this

/-- **Clearing releases the elements of a loop.** -/
theorem release (h : Emptied t t' parent id ps) (ho : Opened t parent id ps) (hsound : t.Sound id)
    (howned : (t.node id).body.cleared.owned = []) :
    Cleared t (t'.release (ps.map Branch.root)) parent (.fork id ps) := by
  obtain ⟨freed, hr, hcount⟩ := release_regrown h.reopened.opened.grove
  obtain ⟨hre, hself⟩ := h.reopened.opened.step_all hr
  rw [h.self] at hself
  refine (h.reopened.trans hre).cleared ho hsound hself howned (fun i => Nat.le_of_eq (hcount i))
    (by simp [howned]) (fun c hc => ?_) (by simp [howned])
  have := Body.owned_of_cleared (Body.owned_cleared_of_swept hc)
  simp [howned] at this

end Tree.Emptied

namespace Tree

/-- Clearing one branch. -/
theorem resetNode_regrown (hfuel : b.ids.length ≤ fuel) : Clears (resetNode fuel) b := by
  induction fuel generalizing b with
  | zero =>
      cases b
      simp at hfuel
  | succ fuel ih =>
      rintro t parent h
      cases b with
      | fork id ps =>
      obtain ⟨hopened, howned, hsound⟩ := Opened.of_grove h
      have hpart : ∀ p ∈ ps, Clears (resetNode fuel) p := fun p hp => ih (length_part_le hp hfuel)
      rw [root_fork, resetNode]
      cases hbody : (t.node id).body with
      | leaf =>
          rw [hbody] at howned
          obtain rfl : ps = [] := List.map_eq_nil_iff.1 howned.symm
          have hclear := Emptied.of_clearContent hopened (by rw [hbody]; rfl)
          exact hclear.reopened.cleared hopened hsound hclear.self (by rw [hbody]; rfl) (by simp)
            (by simp [hbody, Body.cleared, Body.owned]) (by simp [hbody, Body.cleared, Body.swept])
            (by simp [hbody, Body.cleared, Body.owned])
      | sequence children =>
          rw [hbody] at howned
          obtain rfl : children = ps.map Branch.root := howned
          have hclear := Emptied.of_clearContent hopened (by rw [hbody]; rfl)
          obtain ⟨ps', freed, hroots, hr, hspared, hdrained, hblank⟩ :=
            hclear.reopened.opened.grove.foldl_reset_reverse hpart
          exact hclear.sweep_all hopened hsound (by rw [hbody]; rfl) (by rw [hbody]; rfl) hroots hr
            hspared hdrained hblank
      | choice alternatives current =>
          rw [hbody] at howned
          have hclear := Emptied.of_clear hopened (by rw [hbody])
          -- only the current alternative is cleared; the others lie next to it
          obtain ⟨l, qs, r, rfl, hqs⟩ := exists_current howned
          simp only [hqs]
          obtain ⟨qs', freed, hroots, hr, hspared, hdrained, hblank⟩ :=
            hclear.reopened.opened.grove.left.right.foldl_reset fun q hq => hpart q (by simp [hq])
          exact hclear.sweep hopened hsound (by rw [hbody]; exact howned) (by rw [hbody]; exact hqs)
            hroots hr hspared hdrained hblank
      | optional child present =>
          rw [hbody] at howned
          have hparts : child.toList = ps.map Branch.root := howned
          have hclear := Emptied.of_clear hopened (by rw [hbody])
          simp only [hparts]
          obtain ⟨ps', freed, hroots, hr, hspared, hdrained, hblank⟩ :=
            hclear.reopened.opened.grove.foldl_reset hpart
          exact hclear.sweep_all hopened hsound (by rw [hbody]; exact howned)
            (by rw [hbody]; exact hparts) hroots hr hspared hdrained hblank
      | loop items =>
          rw [hbody] at howned
          obtain rfl : items = ps.map Branch.root := howned
          exact (Emptied.of_clear hopened (by rw [hbody]; rfl)).release hopened hsound
            (by rw [hbody]; rfl)
      | separated items separators =>
          rw [hbody] at howned
          have hparts : items ++ separators = ps.map Branch.root := howned
          simp only [hparts]
          exact (Emptied.of_clear hopened (by rw [hbody]; rfl)).release hopened hsound
            (by rw [hbody]; rfl)

/-- **A cleared branch is in order and has no content.**  Clearing it again would release nothing, and
nothing is left in it when the alternatives that clearing passes by are blank. -/
theorem reset_regrown (h : Grove t parent [b]) : Cleared t (t.reset b.root) parent b := by
  have hlength : b.ids.length ≤ t.slots.size + 1 := by
    have := h.apart.length_le
    simp only [slotsAll_cons, slotsAll_nil, List.append_nil, Branch.slots, List.length_map] at this
    omega
  exact resetNode_regrown hlength t parent h

end Tree

end Tessera
