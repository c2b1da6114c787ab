/-
**Taking an item out again.**

An inserted item that is taken out again leaves the tree as it was: the removal drops the separator
that came with the item, the loop composes its content from the old parts, and every ancestor gets its
old content back.  The slots that the insertion took are free again, although a later node finds them in
another order.

What an edit does to the nodes around the edited one is the same for all edits: they stay where they
are and may change their contents.  Contents are made up of those of the leaves, so two trees with the
same nodes and the same texts at the leaves hold the same contents everywhere.

Main definitions:

* `Tessera.Node.Remains` — a node stays, and no content of it comes or goes;
* `Tessera.Tree.Lengthened` — a loop with one item more, and where its separator stands;
* `Tessera.Tree.Restored` — all nodes are there again, and no others.

Main results:

* `Tessera.Garden.restored` — **leaves decide the contents of a tree in order**;
* `Tessera.Tree.removeParts_insertParts` — a removal drops what the insertion put among the parts;
* `Tessera.Session.undoing_run` — **taking an inserted item out again restores the tree**.
-/

import Tessera.Proofs.Tree.Insertion
import Tessera.Proofs.Tree.Splicing

set_option autoImplicit false

namespace Tessera

open Branch Tessera.Tree

variable {t t₁ t' : Tree} {g : Grammar} {n x item : NodeId} {ps : List NodeId} {parent : Option NodeId}
  {roots roots' : List Branch} {b : Branch} {index : Nat} {text : Text} {notices ns : List Notice}

/-! ### Nodes that remain -/

/-- The node stays with its listeners.  It may hold another content, but it holds one if and only if
it did before. -/
structure Node.Remains (m m' : Node) : Prop extends m.Stays m' where
  listeners : m'.listeners = m.listeners
  set : m'.content.isSome = m.content.isSome

namespace Node.Remains

theorem of_eq {m m' : Node} (h : m' = m) : m.Remains m' :=
  ⟨.of_eq h, by rw [h], by rw [h]⟩

theorem trans {m m' m'' : Node} (h : m.Remains m') (h' : m'.Remains m'') : m.Remains m'' where
  generation := h'.generation.trans h.generation
  definition := h'.definition.trans h.definition
  parent := h'.parent.trans h.parent
  body := h'.body.trans h.body
  listeners := h'.listeners.trans h.listeners
  set := h'.set.trans h.set

/-- A node that remains and keeps its content is the same. -/
theorem eq {m m' : Node} (h : m.Remains m') (hcontent : m'.content = m.content) : m' = m := by
  obtain ⟨hgeneration, hdefinition, hparent, hbody⟩ := h.toStays
  have hlisteners := h.listeners
  cases m
  cases m'
  simp_all

end Node.Remains

namespace Tree

/-- All live nodes are there again, each as it was, and there are no others. -/
structure Restored (t t' : Tree) : Prop where
  live : ∀ m, t'.Live m ↔ t.Live m
  node : ∀ m, t.Live m → t'.node m = t.node m
  nodeCount : t'.nodeCount = t.nodeCount

end Tree

/-- A branch stands where all its nodes remain. -/
theorem Branch.Stands.of_remains (h : b.Stands t parent) (hsize : t.slots.size ≤ t'.slots.size)
    (hremains : ∀ x ∈ b.ids, (t.node x).Remains (t'.node x)) : b.Stands t' parent := by
  refine h.congr hsize fun i hi => ?_
  obtain ⟨y, hy, rfl⟩ := List.mem_map.1 hi
  exact (hremains y hy).toStays

namespace Garden

/-- The branches of a tree are the ones before when all nodes of them remain and the roots are the
same. -/
theorem roots_eq (h : Garden t roots) (h' : Garden t' roots')
    (hheads : roots'.map Branch.root = roots.map Branch.root) (hsize : t.slots.size ≤ t'.slots.size)
    (hremains : ∀ x ∈ idsAll roots, (t.node x).Remains (t'.node x)) : roots' = roots := by
  have hstands : ∀ b ∈ roots, b.Stands t' none := fun b hb =>
    (h.stands b hb).of_remains hsize fun x hx => hremains x (mem_idsAll.2 ⟨b, hb, hx⟩)
  have hstands' := h'.stands
  clear h h' hremains
  induction roots generalizing roots' with
  | nil => exact List.map_eq_nil_iff.1 hheads
  | cons b roots ih =>
      cases roots' with
      | nil => simp at hheads
      | cons b' roots' =>
          obtain ⟨hroot, hheads⟩ := List.cons.inj hheads
          rw [(hstands' b' (by simp)).unique (hstands b (by simp)) hroot,
            ih hheads (fun c hc => hstands c (by simp [hc])) fun c hc => hstands' c (by simp [hc])]

/-- **Leaves decide the contents of a tree in order**: when all nodes remain and the leaves keep their
texts, every node is the same. -/
theorem restored (h : Garden t roots) (h' : Garden t' roots')
    (hheads : roots'.map Branch.root = roots.map Branch.root) (hgrammar : t'.grammar = t.grammar)
    (hsize : t.slots.size ≤ t'.slots.size)
    (hremains : ∀ x ∈ idsAll roots, (t.node x).Remains (t'.node x))
    (hleaf : ∀ x ∈ idsAll roots, (t.shapeOf x).isLeaf = true →
      (t'.node x).content = (t.node x).content) : t.Restored t' := by
  obtain rfl := h.roots_eq h' hheads hsize hremains
  have hcontent : ∀ (parent : Option NodeId) (b : Branch), b.Stands t parent →
      (∀ x ∈ b.ids, x ∈ idsAll roots') → ∀ x ∈ b.ids, (t'.node x).content = (t.node x).content := by
    intro parent b hb
    induction hb with
    | @fork parent id parts _ _ _ howned _ ih =>
        intro hsub x hx
        have hparts : ∀ y ∈ idsAll parts, (t'.node y).content = (t.node y).content := fun y hy => by
          obtain ⟨c, hc, hy⟩ := mem_idsAll.1 hy
          exact ih c hc (fun z hz => hsub z (List.mem_cons_of_mem _ (mem_idsAll.2 ⟨c, hc, hz⟩))) y hy
        rcases List.mem_cons.1 hx with rfl | hx
        swap
        · exact hparts x hx
        -- the root of the branch: its parts make up the same content
        have hmem := hsub x hx
        have hx := hremains x hmem
        by_cases hxleaf : (t.shapeOf x).isLeaf = true
        · exact hleaf x hmem hxleaf
        have hxleaf' : ¬ (t'.shapeOf x).isLeaf = true := by
          rwa [shapeOf, hgrammar, hx.definition]
        have hset := hx.set
        cases hold : (t.node x).content with
        | none =>
            rw [hold] at hset
            exact Option.not_isSome_iff_eq_none.1 (by simp [hset])
        | some w =>
            obtain ⟨w', hnew⟩ : ∃ w', (t'.node x).content = some w' := by
              rw [← Option.isSome_iff_exists, hset, hold]
              rfl
            have hw := (h.sound x hmem).composed w hold
            have hw' := (h'.sound x hmem).composed w' hnew
            rw [if_neg hxleaf] at hw
            rw [if_neg hxleaf', hx.body] at hw'
            rw [hnew, hw, hw']
            refine congrArg some (contents_congr fun c hc => hparts c ?_)
            exact Grove.root_mem (howned ▸ Body.owned_of_active hc)
  refine ⟨fun m => by rw [h.live_iff, h'.live_iff], fun m hm => ?_, by
    rw [h.nodeCount_eq, h'.nodeCount_eq]⟩
  have hm := h.live_iff.1 hm
  obtain ⟨b, hb, hmb⟩ := mem_idsAll.1 hm
  exact (hremains m hm).eq
    (hcontent none b (h.stands b hb) (fun x hx => mem_idsAll.2 ⟨b, hb, hx⟩) m hmb)

end Garden

/-! ### Around an edit -/

/-- An edit gives no slot up for good. -/
theorem Revised.size_le (h : Revised t t₁ t' roots roots' n ps notices ns) :
    t.slots.size ≤ t'.slots.size := by
  obtain ⟨c, c', freed, -, he⟩ := h.edited
  rw [he.retold.size]
  exact he.regrown.rework.size_le

/-- **Around an edit** every node remains, those without parts are the same, and none gets below the
edited node. -/
theorem Revised.around (h : Revised t t₁ t' roots roots' n ps notices ns) (hx : x ∈ idsAll roots)
    (hbelow : ¬ t.Below n x) :
    (t.node x).Remains (t'.node x) ∧ ¬ t'.Below n x ∧ x ∈ idsAll roots' ∧
      ((t.shapeOf x).isLeaf = true → t'.node x = t.node x) := by
  obtain ⟨c, c', freed, rfl, he⟩ := h.edited
  have hxc : x ∉ c.ids := fun hxc => hbelow (he.stands.below_iff.2 hxc)
  obtain ⟨hstays, hlisteners⟩ := he.retold_outside hx hxc
  have hstands' : c'.Stands t' (t.node c.root).parent :=
    (he.regrown.grove.stands c' (by simp)).congr (Nat.le_of_eq he.retold.size.symm)
      fun i _ => he.retold.stays i
  refine ⟨⟨hstays, hlisteners, ?_⟩, fun hbelow' => ?_, (he.mem_iff x).2 (.inr ⟨hx, hxc⟩),
    fun hleaf => he.node_eq hx hxc fun hps => ?_⟩
  · by_cases hps : x ∈ ps
    · rw [he.set x hps, he.climb.isSome_of_mem hps]
    · rw [he.node_eq hx hxc hps]
  · exact he.not_mem_of_outside hx hxc (hstands'.below_iff.1 (he.root ▸ hbelow'))
  · -- an ancestor that the change reaches has an active part
    have hbody := (formed_leaf_iff hleaf).1 (he.garden.sound x hx).formed
    rcases Relation.ReflTransGen.cases_head (he.climb.activeBelow hps) with rfl | ⟨y, hy, -⟩
    · exact hxc c.root_mem_ids
    · rw [hbody] at hy
      simp [Body.active] at hy

/-! ### The parts of a loop -/

namespace Tree

/-- **A removal drops what the insertion put among the parts.** -/
theorem removeParts_insertParts {rule : LoopRule} {items : List NodeId} {s : Option NodeId}
    (h : t.Formed n) (hrule : t.loopRule n = .ok rule) (hitems : t.items n = .ok items)
    (hindex : index ≤ items.length) (hs : s.isSome ↔ rule.separator.isSome ∧ 0 < items.length) :
    removeParts (insertParts (t.node n).body index item s) index =
      ((t.node n).body, item :: s.toList) := by
  have hitem : (items.insertIdx index item)[index]? = some item := by
    rw [List.getElem?_insertIdx_self, if_pos hindex]
  rcases h.loop_cases hrule hitems with ⟨-, hnone, hbody, -⟩ |
    ⟨d, explicit, separators, -, hsome, hbody, -, -, hlength⟩
  · obtain rfl : s = none := by simpa [hnone] using hs
    simp [hbody, insertParts, removeParts, List.eraseIdx_insertIdx_self, hitem]
  · cases s with
    | none =>
        -- the loop is empty
        obtain rfl : items = [] := by simpa [hsome] using hs
        obtain rfl : separators = [] := List.length_eq_zero_iff.1 hlength
        simp [hbody, insertParts, removeParts, List.eraseIdx_insertIdx_self, hitem]
    | some s =>
        have hplace := Nat.min_le_right index separators.length
        have hseparator : (separators.insertIdx (min index separators.length) s)[
            min index separators.length]? = some s := by
          rw [List.getElem?_insertIdx_self, if_pos hplace]
        have hsame : min index ((separators.insertIdx (min index separators.length) s).length - 1) =
            min index separators.length := by
          rw [List.length_insertIdx_of_le_length hplace, Nat.add_sub_cancel]
        simp only [hbody, insertParts, removeParts, hsame, List.eraseIdx_insertIdx_self, hitem,
          hseparator, Option.toList_some, List.singleton_append]

/-- A loop repeats the same as long as it keeps its definition. -/
theorem Live.loopRule_eq {rule : LoopRule} (hn' : t'.Live n) (hshape : t'.shapeOf n = t.shapeOf n)
    (h : t.loopRule n = .ok rule) : t'.loopRule n = .ok rule := by
  have hgrammar : t'.grammar.shape (t'.node n).definition = t.shapeOf n := hshape
  obtain ⟨item, separator, r⟩ := rule
  rcases loopRule_ok h with ⟨hloop, rfl⟩ | ⟨d, explicit, hloop, rfl⟩
  · simp [loopRule, hn'.get_eq, bind, Except.bind, hgrammar, hloop]
  · simp [loopRule, hn'.get_eq, bind, Except.bind, hgrammar, hloop]

/-- The loop `n` has a new item with the given text before the item of number `index`.  With separators
it has a new separator, too, unless it was empty: right behind the new item, or right before it when
the item is the last one.  All other parts keep their order. -/
structure Lengthened (t t' : Tree) (n : NodeId) (index : Nat) (item : NodeId) (text : Text) : Prop where
  items : ∃ items, t.items n = .ok items ∧ index ≤ items.length ∧ ¬ t.Live item ∧
    t'.items n = .ok (items.insertIdx index item)
  content : t'.content item = .ok text
  separators : ∀ items separators, t.items n = .ok items → t.separators n = .ok separators →
    ∃ separators', t'.separators n = .ok separators' ∧ separators'.length = items.length ∧
      (0 < items.length → ∃ s before after, ¬ t.Live s ∧
        separators' = separators.insertIdx (min index separators.length) s ∧
        t.children n = .ok (before ++ after) ∧
        t'.children n = .ok (before ++
          (if index < items.length then [item, s] else [s, item]) ++ after))

/-- The separators of a loop after an insertion. -/
theorem insertParts_separators {rule : LoopRule} {items : List NodeId} {s : Option NodeId}
    (h : t.Formed n) (hn : t.Live n) (hn' : t'.Live n) (hrule : t.loopRule n = .ok rule)
    (hitems : t.items n = .ok items) (hindex : index ≤ items.length)
    (hs : s.isSome ↔ rule.separator.isSome ∧ 0 < items.length) (hfresh : ∀ x, s = some x → ¬ t.Live x)
    (hbody' : (t'.node n).body = insertParts (t.node n).body index item s) {separators : List NodeId}
    (hseparators : t.separators n = .ok separators) :
    ∃ separators', t'.separators n = .ok separators' ∧ separators'.length = items.length ∧
      (0 < items.length → ∃ s before after, ¬ t.Live s ∧
        separators' = separators.insertIdx (min index separators.length) s ∧
        t.children n = .ok (before ++ after) ∧
        t'.children n = .ok (before ++
          (if index < items.length then [item, s] else [s, item]) ++ after)) := by
  rcases h.loop_cases hrule hitems with ⟨-, -, hbody, -⟩ |
    ⟨d, explicit, separators₂, -, hsome, hbody, -, -, hlength⟩
  · simp [Tree.separators, hn.get_eq, bind, Except.bind, hbody, mismatch] at hseparators
  obtain rfl : separators₂ = separators :=
    Except.ok.inj ((hn.items_separated hbody).2.symm.trans hseparators)
  rw [hbody] at hbody'
  have hparts := (hn'.items_separated hbody').2
  cases s with
  | none =>
      -- the loop is empty, and stays without separators
      obtain rfl : items = [] := by simpa [hsome] using hs
      obtain rfl : separators₂ = [] := List.length_eq_zero_iff.1 hlength
      exact ⟨[], hparts, rfl, fun hpos => absurd hpos (by simp)⟩
  | some s =>
      have hpos : 0 < items.length := (hs.1 rfl).2
      obtain ⟨before, after, hactive, hactive'⟩ :=
        Body.interleave_insertIdx hlength hpos hindex item s
      refine ⟨_, hparts, ?_, fun _ => ⟨s, before, after, hfresh s rfl, rfl, ?_, ?_⟩⟩
      · rw [List.length_insertIdx_of_le_length (Nat.min_le_right _ _), hlength,
          Nat.sub_add_cancel hpos]
      · rw [hn.children_eq, hbody, Body.active, hactive]
      · rw [hn'.children_eq, hbody', insertParts, Body.active, hactive']

end Tree

/-! ### An insertion and its removal -/

namespace Garden

/-- The loop between the insertion and the removal. -/
theorem lengthened {change : Change NodeId} (h : Garden t roots) (hvalid : t.grammar.Valid)
    (hrank : t.grammar.Ranked) (hok : t.insert n index text = .ok change) :
    t.Lengthened change.tree n index change.value text := by
  have hinserted := h.insert_spliced hvalid hrank hok
  obtain ⟨rule, items, s, hrule, hitems, hindex, hsome, hn, t₁, roots', ps, ns, new, hrevised, -, hnode,
    -, -, -, hfresh⟩ := h.insert_node hvalid hrank hok
  obtain ⟨items₂, hitems₂, -, hlist⟩ := hinserted.items
  obtain rfl : items₂ = items := Except.ok.inj (hitems₂.symm.trans hitems)
  refine ⟨⟨items₂, hitems, hindex, hfresh _ (by simp), hlist⟩, hinserted.made,
    fun items separators hitems₃ hseparators => ?_⟩
  obtain rfl : items₂ = items := Except.ok.inj (hitems.symm.trans hitems₃)
  exact insertParts_separators (h.sound n hn).formed (h.live_iff.2 hn) hrevised.live hrule hitems hindex
    hsome (fun x hx => hfresh x (by simp [hx])) (by rw [hnode]) hseparators

/-- An inserted item can be taken out again: a loop with a content admits as many items as it had. -/
theorem removable {change : Change NodeId} (h : Garden t roots) (hvalid : t.grammar.Valid)
    (hrank : t.grammar.Ranked) (hset : (t.node n).content.isSome)
    (hok : t.insert n index text = .ok change) : ∃ back, change.tree.remove n index = .ok back := by
  obtain ⟨rule, items, s, hrule, hitems, hindex, hsome, hn, t₁, roots', ps, ns, new, hrevised, -, hnode,
    -⟩ := h.insert_node hvalid hrank hok
  obtain ⟨hgarden', -, hgrammar, -⟩ := hrevised.garden
  have hsound := h.sound n hn
  have hr := repetition_of_loopRule hrule
  have hshape : change.tree.shapeOf n = t.shapeOf n := by
    rw [shapeOf, hnode, hgrammar]
    rfl
  have hitems' : change.tree.items n = .ok (items.insertIdx index change.value) := by
    rw [hgarden'.items_eq hrevised.live (hshape ▸ hr), hnode,
      (insertParts_grew hsound.formed hrule hitems hindex hsome change.value).1]
  have hlength := List.length_insertIdx_of_le_length hindex change.value
  have hadmits : rule.repetition.admits items.length = true := by
    have hsame : (t.node n).body.items = items :=
      Except.ok.inj ((h.items_eq (h.live_iff.2 hn) hr).symm.trans hitems)
    rw [← hsame]
    exact hsound.settled.admitted hset _ hr
  have hlt : index < (items.insertIdx index change.value).length := by omega
  exact ⟨_, remove_of_ok (hrevised.live.loopRule_eq hshape hrule) hitems' hlt
    (by rw [hlength, Nat.add_sub_cancel]; exact hadmits)⟩

/-- **Taking an inserted item out again restores the tree.** -/
theorem undone {change : Change NodeId} {back : Change Unit} (h : Garden t roots)
    (hvalid : t.grammar.Valid) (hrank : t.grammar.Ranked) (hset : (t.node n).content.isSome)
    (hok : t.insert n index text = .ok change) (hremove : change.tree.remove n index = .ok back) :
    t.Restored back.tree := by
  obtain ⟨rule, items, s, hrule, hitems, hindex, hsome, hn, t₁, roots', ps, ns, new, hrevised, -, hnode,
    -, hkept, -⟩ := h.insert_node hvalid hrank hok
  obtain ⟨hgarden', hheads, hgrammar, -⟩ := hrevised.garden
  obtain ⟨-, -, -, -, -, -, t₂, roots'', qs, new', hrevised', hnode', -, hkept'⟩ :=
    hgarden'.remove_node hremove
  obtain ⟨hgarden'', hheads', hgrammar', -⟩ := hrevised'.garden
  have hformed := (h.sound n hn).formed
  have hparts : removeParts (change.tree.node n).body index =
      ((t.node n).body, change.value :: s.toList) := by
    rw [hnode]
    exact removeParts_insertParts hformed hrule hitems hindex hsome
  rw [hparts] at hnode' hkept'
  -- the loop itself, what is below it, and what lies around it
  have hsame : ∀ x ∈ idsAll roots, (t.node x).Remains (back.tree.node x) ∧
      ((t.shapeOf x).isLeaf = true → (back.tree.node x).content = (t.node x).content) := by
    intro x hx
    by_cases hbelow : t.Below n x
    · rcases Relation.ReflTransGen.cases_head hbelow with rfl | ⟨c, hc, hcx⟩
      · refine ⟨⟨⟨?_, ?_, ?_, ?_⟩, ?_, ?_⟩, fun hleaf =>
          absurd hleaf (hformed.of_repetition (repetition_of_loopRule hrule)).1⟩
        all_goals simp [hnode', hnode, hset]
      · have hcx' : change.tree.Below c x := (below_congr fun y hy => by rw [hkept c hc y hy]).2 hcx
        have heq : back.tree.node x = t.node x := (hkept' c hc x hcx').trans (hkept c hc x hcx)
        exact ⟨.of_eq heq, fun _ => by rw [heq]⟩
    · obtain ⟨hremains, hbelow', hx', hleaf⟩ := hrevised.around hx hbelow
      obtain ⟨hremains', -, -, hleaf'⟩ := hrevised'.around hx' hbelow'
      refine ⟨hremains.trans hremains', fun hxleaf => ?_⟩
      have hxleaf' : (change.tree.shapeOf x).isLeaf = true := by
        rwa [shapeOf, hgrammar, hremains.definition]
      rw [hleaf' hxleaf', hleaf hxleaf]
  exact h.restored hgarden'' (hheads'.trans hheads) (hgrammar'.trans hgrammar)
    (Nat.le_trans hrevised.size_le hrevised'.size_le) (fun x hx => (hsame x hx).1)
    fun x hx => (hsame x hx).2

end Garden

/-- What can be read of a live node is the same in a tree that is restored. -/
theorem Tree.Restored.reads (h : t.Restored t') (hn : t.Live n) :
    t'.items n = t.items n ∧ t'.separators n = t.separators n ∧ t'.content n = t.content n := by
  have hget : t'.get n = t.get n := by
    rw [hn.get_eq, ((h.live n).2 hn).get_eq, h.node n hn]
  exact ⟨by rw [Tree.items, Tree.items, hget], by rw [Tree.separators, Tree.separators, hget],
    by rw [Tree.content, Tree.content, hget]⟩

/-- **Insertions and removals are inverse.**  An item that is inserted into a loop with a content stands
where it was put, with its separator, and it can be taken out again.  Then every node of the tree is as
it was: the loop has the same items and separators, all contents are the old ones, and there are as many
nodes as before. -/
theorem Session.undoing_run {draft : Draft} (hbuild : draft.build = .ok g) {ops : List Operation}
    (hrun : (Session.run g ops).tree = t) (hset : t.isSet n = .ok true) {change : Change NodeId}
    (hinsert : t.insert n index text = .ok change) :
    t.Lengthened change.tree n index change.value text ∧
    ∃ back, change.tree.remove n index = .ok back ∧
      back.tree.items n = t.items n ∧ back.tree.separators n = t.separators n ∧
      (∀ m, t.Live m → back.tree.content m = t.content m) ∧ t.Restored back.tree := by
  have hvalid := Draft.build_valid hbuild
  have hrank := Draft.build_ranked hbuild
  subst hrun
  obtain ⟨hgrammar, -, roots, hgarden, -⟩ := Session.tended_run hvalid hrank ops
  generalize (Session.run g ops).tree = t at *
  subst hgrammar
  obtain ⟨-, items, -, -, -, hitems, -⟩ := insert_ok hinsert
  have hn : t.Live n := hgarden.live_iff.2 (live_of_items hgarden.toPlanted hitems)
  have hset : (t.node n).content.isSome := by
    simpa [Tree.isSet, hn.get_eq, bind, Except.bind, pure, Except.pure] using hset
  obtain ⟨back, hremove⟩ := hgarden.removable hvalid hrank hset hinsert
  have hrestored := hgarden.undone hvalid hrank hset hinsert hremove
  exact ⟨hgarden.lengthened hvalid hrank hinsert, back, hremove, (hrestored.reads hn).1,
    (hrestored.reads hn).2.1, fun m hm => (hrestored.reads hm).2.2, hrestored⟩

/-- A second letter is put before the first one, with a comma between them, and taken out again. -/
theorem Session.undoing_run_list :
    ∃ change, listTree.isSet ⟨0, 0⟩ = .ok true ∧ listTree.insert ⟨0, 0⟩ 0 ['a'] = .ok change ∧
      listTree.Lengthened change.tree ⟨0, 0⟩ 0 change.value ['a'] ∧
      ∃ back, change.tree.remove ⟨0, 0⟩ 0 = .ok back ∧ listTree.Restored back.tree := by
  have hloop : listTree.LoopAt ⟨0, 0⟩ ⟨3, some (2, none), .any⟩ [⟨1, 0⟩] := ⟨rfl, rfl⟩
  have hletter : (resolve listTree.grammar 3 ['a']).result = .ok (.leaf ⟨0, 1⟩) :=
    resolve_literal rfl rfl
  have hcomma : listTree.newSeparator ⟨0, 0⟩ ⟨3, some (2, none), .any⟩ 1 =
      .ok (some (2, [','], .leaf ⟨0, 1⟩)) := by
    have hsplit : (resolve listTree.grammar 2 [',']).result = .ok (.leaf ⟨0, 1⟩) :=
      resolve_literal rfl rfl
    have htext : listTree.separatorText ⟨0, 0⟩ 2 none = .ok [','] := rfl
    simp [newSeparator, htext, Outcome.split_eq_ok.2 hsplit, bind, Except.bind, pure, Except.pure]
  have hinsert := hloop.insert_of_split (Nat.zero_le 1) rfl hletter hcomma
  obtain ⟨hlengthened, back, hremove, -, -, -, hrestored⟩ :=
    Session.undoing_run listDraft_build run_list rfl hinsert
  exact ⟨_, rfl, hinsert, hlengthened, back, hremove, hrestored⟩

end Tessera
