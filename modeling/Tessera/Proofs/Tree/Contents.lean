/-
**New contents.**

A call that gives a node a new content assigns the split of the text to the branch of the node, and
carries the change up.  A handle may also name a free slot, when it comes from elsewhere; such a call
stores the content there, where no node sees it.

Main definitions:

* `Tessera.Revised` — the branch of a node was edited, and all reports of it are given.

Main results:

* `Tessera.Garden.congr` — a tree in order stays so as long as its nodes stay;
* `Tessera.Garden.setContent` — **a new content for a live node**;
* `Tessera.Planted.setContent_vacant` — a content for a free slot.
-/

import Tessera.Proofs.Tree.Edits
import Tessera.Tree.Editing

set_option autoImplicit false

namespace Tessera

open Branch Tessera.Tree

variable {t t' : Tree} {id n p x : NodeId} {ps : List NodeId} {roots roots' : List Branch}
  {b c c' : Branch} {freed : List Nat} {e : Edit} {text : Text} {node : Node}

/-! ### Handles -/

/-- The node behind a handle that an operation found. -/
theorem Tree.get_eq_ok : t.get id = .ok node ↔ t.lookup? id = some node := by
  unfold get
  cases t.lookup? id <;> simp

namespace Planted

/-- A handle that names a slot names a live node, or else the slot is free. -/
theorem live_or_vacant (h : Planted t roots) (hid : t.lookup? id = some node) :
    id ∈ idsAll roots ∨ id.index ∈ t.free ∧ (t.node id).Vacant := by
  obtain ⟨hsize, hgeneration, -⟩ := lookup?_eq_some.1 hid
  by_cases hfree : id.index ∈ t.free
  · exact .inr ⟨hfree, h.vacant _ hfree⟩
  · exact .inl (h.live_iff.1 ⟨hsize, hfree, hgeneration⟩)

/-- A live node has its own slot. -/
theorem index_ne_of_vacant (h : Planted t roots) (hid : id.index ∈ t.free) (hx : x ∈ idsAll roots) :
    x.index ≠ id.index :=
  fun heq => h.apart.not_free (index_mem_slotsAll hx) (heq ▸ hid)

end Planted

/-- A tree in order stays so as long as its nodes stay where they are and keep their contents. -/
theorem Garden.congr (h : Garden t roots) (hgrammar : t'.grammar = t.grammar)
    (hsize : t'.slots.size = t.slots.size) (hfree : t'.free = t.free)
    (hstays : ∀ i, (t.slot i).Stays (t'.slot i))
    (hcontent : ∀ x ∈ idsAll roots, (t'.node x).content = (t.node x).content) :
    Garden t' roots where
  count i := by rw [hfree, hsize]; exact h.count i
  stands b hb := (h.stands b hb).congr (Nat.le_of_eq hsize.symm) fun i _ => hstays i
  vacant i hi := by
    rw [hfree] at hi
    have := h.vacant i hi
    exact ⟨(hstays i).body.trans this.body, (hstays i).parent.trans this.parent⟩
  sound x hx := by
    refine (h.sound x hx).congr hgrammar (hstays _) (hcontent x hx) fun c hc => ?_
    exact ⟨hstays _, hcontent c (h.owned_mem hx hc).1⟩

/-! ### Listeners -/

/-- No node gets another listener. -/
structure Tree.Inherits (t t' : Tree) : Prop where
  nextListener : t'.nextListener = t.nextListener
  listeners : ∀ i, (t'.slot i).listeners.Sublist (t.slot i).listeners

theorem Tree.Retold.inherits (h : t.Retold t' ps) : t.Inherits t' :=
  ⟨h.nextListener, fun i => by rw [h.listeners]⟩

theorem Tree.Rework.inherits {S S' : List Nat} (h : t.Rework t' S S' freed) : t.Inherits t' :=
  ⟨h.nextListener, h.fewer⟩

theorem Tree.Inherits.trans {t'' : Tree} (h : t.Inherits t') (h' : t'.Inherits t'') :
    t.Inherits t'' :=
  ⟨h'.nextListener.trans h.nextListener, fun i => (h'.listeners i).trans (h.listeners i)⟩

/-! ### Reports of whole edits -/

/-- The branch of the node `n` was edited, and the change was carried up to the ancestors `ps`.  In
between is the tree `t₁`.  The notices `ns` report the branch, and the others the ancestors. -/
structure Revised (t t₁ t' : Tree) (roots roots' : List Branch) (n : NodeId) (ps : List NodeId)
    (notices ns : List Notice) : Prop where
  edited : ∃ c c' freed, c.root = n ∧ Edited t t₁ t' roots roots' c c' ps freed
  report : notices = ns ++ ps.map (Edit.recomposedNotice t₁ t')

theorem Revised.garden {t₁ : Tree} {notices ns : List Notice}
    (h : Revised t t₁ t' roots roots' n ps notices ns) :
    Garden t' roots' ∧ roots'.map Branch.root = roots.map Branch.root ∧ t'.grammar = t.grammar ∧
      t.Inherits t' := by
  obtain ⟨c, c', freed, -, hedited⟩ := h.edited
  exact ⟨hedited.garden', hedited.heads, hedited.grammar,
    hedited.regrown.rework.inherits.trans hedited.retold.inherits⟩

/-! ### Assigning to a node without parts -/

namespace Edit

/-- A node that has no parts takes the text of the split alone. -/
theorem assign_of_leaf (split : Split) (h : (e.tree.node id).body = .leaf) :
    assign text split id e = e.store id (split.content text) := by
  cases split <;> simp only [assign, h] <;> rfl

/-- A change of a node without a parent stays there. -/
theorem propagateUp_of_parent (h : (e.tree.node id).parent = none) : propagateUp id e = e := by
  have hactive : e.tree.activeParent? id = none := by rw [activeParent?, h, Option.filter_none]
  rw [propagateUp, propagate, hactive]

end Edit

/-! ### The calls -/

theorem Outcome.split_eq_ok {o : Outcome} {split : Split} :
    o.split = .ok split ↔ o.result = .ok split := by
  unfold Outcome.split
  cases o.result <;> simp

/-- A call that succeeds found the node, and a split of the text. -/
theorem Tree.setContent_ok {change : Change Unit} (h : (t.setContent n text).result = .ok change) :
    ∃ split, t.lookup? n = some (t.node n) ∧
      (resolve t.grammar (t.node n).definition text).result = .ok split ∧
      change = (Edit.propagateUp n (Edit.assign text split n ⟨t, []⟩)).result () := by
  unfold setContent at h
  cases hget : t.get n with
  | error err => simp [hget] at h
  | ok node =>
      have hlookup := get_eq_ok.1 hget
      obtain ⟨-, -, rfl⟩ := lookup?_eq_some.1 hlookup
      rw [hget] at h
      cases hsplit : (resolve t.grammar (t.node n).definition text).split with
      | error err => simp [hsplit] at h
      | ok split =>
          simp only [hsplit, Except.ok.injEq] at h
          exact ⟨split, hlookup, Outcome.split_eq_ok.1 hsplit, h.symm⟩

/-- **A new content for a live node**: its branch follows the split of the text, the change is carried
up, and the nodes that received a content are reported.  What is left in parts that are not selected,
what is kept beside the content, and what the node shows afterwards, is what the split says. -/
theorem Garden.setContent {change : Change Unit} (h : Garden t roots) (hvalid : t.grammar.Valid)
    (hrank : t.grammar.Ranked) (hn : n ∈ idsAll roots)
    (hok : (t.setContent n text).result = .ok change) :
    ∃ t₁ roots' ps ns, Revised t t₁ change.tree roots roots' n ps change.notices ns ∧
      (t₁.node n).content = some text ∧ Reported t t₁ [n] ns ∧
      (∀ p q, change.tree.ActiveBelow n p → change.tree.Spare p q → t.Below n p ∧
        q ∈ (t.node p).body.kept ∧ (change.tree.Blank q ↔ t.LeavesBlank p q)) ∧
      change.tree.AllCompact [n] ∧
      ∃ split, (resolve t.grammar (t.node n).definition text).result = .ok split ∧
        change.tree.Displays (split.view t.grammar text (t.node n).definition) n := by
  obtain ⟨split, hlookup, hresolve, rfl⟩ := setContent_ok hok
  obtain ⟨hfits, hcontent⟩ := split_fits hvalid hresolve
  obtain ⟨b, c, hb, hin, rfl, hc⟩ := h.exists_branch hn
  obtain ⟨c', freed, ns, hroot, hmakes, hdisplays⟩ := Edit.assigns hvalid hrank split ⟨t, []⟩
    (t.node c.root).parent c rfl (h.grove_of_inside hb hin hc) hfits
  have hset := hmakes.contents
  simp only [List.map_cons, List.map_nil, List.cons.injEq, and_true, hroot, hcontent] at hset
  obtain ⟨roots', ps, hedited, hnotices⟩ := h.edit hb hin hc hmakes.regrown hroot hmakes.spared
    fun _ => by rw [hset]; rfl
  -- carrying the change up leaves the branch alone
  have hinside : ∀ x ∈ idsAll [c'], (Edit.propagateUp c.root (Edit.assign text split c.root
      ⟨t, []⟩)).tree.node x = (Edit.assign text split c.root ⟨t, []⟩).tree.node x :=
    fun x hx => hedited.node_inside (by simpa using hx)
  refine ⟨_, roots', ps, ns, ⟨⟨c, c', freed, rfl, hedited⟩, ?_⟩, hset, ?_, ?_, ?_, split, hresolve,
    ?_⟩
  · simp only [Edit.result, hnotices, hmakes.notices, List.append_nil, List.reverse_append,
      List.reverse_reverse]
  · have := hmakes.reported
    rwa [List.map_singleton, hroot] at this
  · have hdiscards := hmakes.discards.frame hmakes.regrown.grove hinside
    rw [List.map_singleton, hroot] at hdiscards
    intro p q hp hq
    obtain ⟨hmem, hkept, hblank⟩ := hdiscards c.root (by simp) p q hp hq
    exact ⟨hc.below_iff.2 (by simpa using hmem), hkept, hblank⟩
  · have hcompact := hmakes.compact.frame hmakes.regrown.grove hinside
    rwa [List.map_singleton, hroot] at hcompact
  · refine hmakes.regrown.grove.displays_congr hinside ?_ hdisplays
    simpa [← hroot] using c'.root_mem_ids

/-- A content for a free slot changes nothing else. -/
theorem Planted.setContent_vacant {change : Change Unit} (h : Planted t roots)
    (hvalid : t.grammar.Valid) (hfree : n.index ∈ t.free)
    (hok : (t.setContent n text).result = .ok change) :
    t.Retold change.tree [n] ∧ (change.tree.node n).content = some text ∧
      change.notices = [⟨n, (t.node n).content, text, (t.node n).listeners⟩] := by
  obtain ⟨split, -, hresolve, rfl⟩ := setContent_ok hok
  obtain ⟨-, htext⟩ := split_fits hvalid hresolve
  have hvacant : (t.node n).Vacant := h.vacant _ hfree
  have hsize : n.index < t.slots.size := h.apart.free_lt_size hfree
  obtain ⟨hr, hcontent⟩ := store_retold (e := ⟨t, []⟩) hsize text
  have hassign : Edit.assign text split n ⟨t, []⟩ = Edit.store ⟨t, []⟩ n text := by
    rw [Edit.assign_of_leaf (e := ⟨t, []⟩) split hvacant.body, htext]
  have hparent : ((Edit.store ⟨t, []⟩ n text).tree.node n).parent = none :=
    (hr.stays n.index).parent.trans hvacant.parent
  rw [hassign, Edit.propagateUp_of_parent hparent]
  exact ⟨hr, hcontent, rfl⟩

/-- A content for a free slot leaves the tree in order. -/
theorem Garden.retold_vacant (h : Garden t roots) (hr : t.Retold t' [n]) (hfree : n.index ∈ t.free) :
    Garden t' roots ∧ ∀ x ∈ idsAll roots, t'.node x = t.node x := by
  have hsame : ∀ x ∈ idsAll roots, t'.node x = t.node x := fun x hx => by
    refine hr.same _ ?_
    rw [List.map_singleton, List.mem_singleton]
    exact h.index_ne_of_vacant hfree hx
  exact ⟨h.congr hr.grammar hr.size hr.free hr.stays fun x hx => by rw [hsame x hx], hsame⟩

end Tessera
