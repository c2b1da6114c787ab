/-
**What an edit changes.**

A new content of a node, a new item of a loop and one that is taken out change the contents of the
ancestors that depend on the node, and each of them in one span only.  Whatever lies elsewhere is the
same afterwards, and so is everything when a node is made on first use.

Main definitions:

* `Tessera.Tree.Spliced` — one span of each ancestor is replaced;
* `Tessera.Tree.Untouched` — what lies elsewhere is the same;
* `Tessera.Tree.Widened` — an item stands among the parts of a loop, perhaps with a separator.

Main results:

* `Tessera.Garden.mem_climb_iff` — the ancestors that a change reaches;
* `Tessera.Session.splice_run` — **edits of a tree in use splice and touch nothing else**.
-/

import Tessera.Proofs.Tree.Ownership

set_option autoImplicit false

namespace Tessera

open Branch Tessera.Tree

variable {t t₁ t' : Tree} {n p m x item : NodeId} {ps : List NodeId} {roots roots' : List Branch}
  {c c' : Branch} {freed : List Nat} {g : Grammar} {text : Text} {notices ns : List Notice}

namespace Tree

/-- The content of each ancestor that depends on the node `n`, along active parts, is the one before
with one span replaced, the one that holds the content of `n`. -/
def Spliced (t t' : Tree) (n : NodeId) : Prop :=
  ∀ p w, t.Live p → p ≠ n → t.ActiveBelow p n → t.content p = .ok w →
    ∃ before old new after, t.Around n p before after ∧
      t.content n = .ok old ∧ t'.content n = .ok new ∧
      w = before ++ old ++ after ∧ t'.content p = .ok (before ++ new ++ after)

/-- A live node that is neither below the node `n` nor an ancestor with a content that depends on it
is live afterwards, and the same in every respect. -/
def Untouched (t t' : Tree) (n : NodeId) : Prop :=
  ∀ m, t.Live m → ¬ t.Below n m → ¬ (t.ActiveBelow m n ∧ (t.node m).content.isSome) →
    t'.Live m ∧ t'.node m = t.node m

/-- The loop `n` has one item more in the tree `t'` than in `t`, and one separator more when it has
separators then, side by side.  The content of the loop has their texts more, in the place where they
stand. -/
def Widened (t t' : Tree) (n item : NodeId) : Prop :=
  ∃ (before after added : List NodeId) (separator : Option NodeId),
    (added = item :: separator.toList ∨ added = separator.toList ++ [item]) ∧
    (separator.isSome ↔ ∃ s ss, t'.separators n = .ok (s :: ss)) ∧
    t.children n = .ok (before ++ after) ∧ t'.children n = .ok (before ++ added ++ after) ∧
    ∀ w w', t.content n = .ok w → t'.content n = .ok w' →
      w = t.contents before ++ t.contents after ∧
        w' = t.contents before ++ t'.contents added ++ t.contents after

/-- A new item with the given text stands before the item of number `index` of the loop `n`, and
everything else follows from that. -/
structure Inserted (t t' : Tree) (n : NodeId) (index : Nat) (item : NodeId) (text : Text) : Prop where
  items : ∃ items, t.items n = .ok items ∧ index ≤ items.length ∧
    t'.items n = .ok (items.insertIdx index item)
  made : t'.content item = .ok text
  set : ∃ w, t'.content n = .ok w
  widened : t.Widened t' n item
  spliced : t.Spliced t' n
  untouched : t.Untouched t' n

/-- The item of number `index` of the loop `n` is gone, and everything else follows from that. -/
structure Removed (t t' : Tree) (n : NodeId) (index : Nat) (item : NodeId) : Prop where
  items : ∃ items, t.items n = .ok items ∧ items[index]? = some item ∧
    t'.items n = .ok (items.eraseIdx index)
  set : ∃ w, t'.content n = .ok w
  widened : t'.Widened t n item
  spliced : t.Spliced t' n
  untouched : t.Untouched t' n

end Tree

/-! ### The ancestors that a change reaches -/

namespace Garden

/-- What contributes to the content of a node holds a content, too. -/
theorem isSome_of_activeBelow (h : Garden t roots) (hp : p ∈ idsAll roots)
    (hset : (t.node p).content.isSome) (hx : t.ActiveBelow p x) :
    x ∈ idsAll roots ∧ (t.node x).content.isSome := by
  induction hx with
  | refl => exact ⟨hp, hset⟩
  | tail _ hc ih =>
      obtain ⟨hmem, hset⟩ := ih
      exact ⟨(h.owned_mem hmem (Body.owned_of_active hc)).1,
        (h.sound _ hmem).settled.active hset _ hc⟩

/-- **The ancestors that a change reaches** are those that depend on the node and hold contents. -/
theorem mem_climb_iff (h : Garden t roots) (hn : n ∈ idsAll roots) (hps : t.Climb n ps) :
    p ∈ ps ↔ p ∈ idsAll roots ∧ p ≠ n ∧ t.ActiveBelow p n ∧ (t.node p).content.isSome := by
  constructor
  · intro hp
    refine ⟨h.mem_of_climb hn hps hp, ?_, hps.activeBelow hp, hps.isSome_of_mem hp⟩
    rintro rfl
    exact (List.nodup_cons.1 (h.nodup_climb hn hps)).1 hp
  · rintro ⟨hp, hne, hbelow, hset⟩
    -- the path from the ancestor to the node, from its end
    induction hps with
    | @top n htop =>
        rcases Relation.ReflTransGen.cases_tail hbelow with rfl | ⟨q, hpq, hq⟩
        · exact absurd rfl hne
        · have hqmem := (h.isSome_of_activeBelow hp hset hpq).1
          exact absurd hq (htop q (h.owned_mem hqmem (Body.owned_of_active hq)).2)
    | @unset n q hparent _ hunset =>
        rcases Relation.ReflTransGen.cases_tail hbelow with rfl | ⟨q', hpq, hq⟩
        · exact absurd rfl hne
        · obtain ⟨hqmem, hqset⟩ := h.isSome_of_activeBelow hp hset hpq
          obtain rfl := Option.some.inj
            (hparent.symm.trans (h.owned_mem hqmem (Body.owned_of_active hq)).2)
          simp [hunset] at hqset
    | @step n q ps hparent _ _ _ ih =>
        rcases Relation.ReflTransGen.cases_tail hbelow with rfl | ⟨q', hpq, hq⟩
        · exact absurd rfl hne
        · have hqmem := (h.isSome_of_activeBelow hp hset hpq).1
          obtain rfl := Option.some.inj
            (hparent.symm.trans (h.owned_mem hqmem (Body.owned_of_active hq)).2)
          by_cases hpq' : p = q
          · rw [hpq']
            exact List.mem_cons_self
          · exact List.mem_cons_of_mem _ (ih hqmem hpq' hpq)

end Garden

/-! ### Edits of a branch -/

namespace Edited

variable (h : Edited t t₁ t' roots roots' c c' ps freed)
include h

/-- The edited node is live afterwards. -/
theorem live_root : t'.Live c.root :=
  h.garden'.live_iff.2 ((h.mem_iff _).2 (.inl (h.root ▸ c'.root_mem_ids)))

/-- One span of each ancestor is replaced. -/
theorem spliced {new : Text} (hnew : (t'.node c.root).content = some new) :
    t.Spliced t' c.root := by
  intro p w hp hne hbelow hw
  have hpmem := h.garden.live_iff.1 hp
  have hpset := hp.content_eq_ok.1 hw
  have hset : (t.node p).content.isSome := Option.isSome_iff_exists.2 ⟨w, hpset⟩
  have hmem : p ∈ ps := (h.garden.mem_climb_iff h.root_mem h.climb).2 ⟨hpmem, hne, hbelow, hset⟩
  obtain ⟨old, hold⟩ :=
    Option.isSome_iff_exists.1 (h.garden.isSome_of_activeBelow hpmem hset hbelow).2
  obtain ⟨before, after, haround, hp₁, hp₂⟩ := h.splice hold hnew hmem
  have hp' : t'.Live p := h.live_outside hpmem (h.climb_outside hmem).2
  refine ⟨before, old, new, after, haround, ?_, h.live_root.content_eq_ok.2 hnew, ?_,
    hp'.content_eq_ok.2 hp₂⟩
  · exact (h.garden.live_iff.2 h.root_mem).content_eq_ok.2 hold
  · exact Option.some.inj (hpset.symm.trans hp₁)

/-- What lies elsewhere is the same. -/
theorem untouched : t.Untouched t' c.root := by
  intro m hm hbelow hchain
  have hmem := h.garden.live_iff.1 hm
  have hmc : m ∉ c.ids := fun hmc => hbelow (h.stands.below_iff.2 hmc)
  refine ⟨h.live_outside hmem hmc, h.node_eq hmem hmc fun hps => hchain ?_⟩
  obtain ⟨-, -, hactive, hset⟩ := (h.garden.mem_climb_iff h.root_mem h.climb).1 hps
  exact ⟨hactive, hset⟩

end Edited

namespace Revised

variable (h : Revised t t₁ t' roots roots' n ps notices ns)
include h

/-- Carrying the change up leaves the edited node alone. -/
theorem node_eq : t'.node n = t₁.node n := by
  obtain ⟨c, c', freed, rfl, hedited⟩ := h.edited
  exact hedited.node_inside (hedited.root ▸ c'.root_mem_ids)

theorem live : t'.Live n := by
  obtain ⟨c, c', freed, rfl, hedited⟩ := h.edited
  exact hedited.live_root

/-- An edit of a node splices, and touches nothing else. -/
theorem spliced {new : Text} (hnew : (t'.node n).content = some new) :
    t.Spliced t' n ∧ t.Untouched t' n := by
  obtain ⟨c, c', freed, rfl, hedited⟩ := h.edited
  exact ⟨hedited.spliced hnew, hedited.untouched⟩

end Revised

/-! ### Items of loops -/

/-- The content of a loop is made up of the contents of its active parts. -/
theorem Tree.Sound.content_of_items {items : List NodeId} {w : Text} (h : t.Sound n)
    (hitems : t.items n = .ok items) (hw : (t.node n).content = some w) :
    w = t.contents (t.node n).body.active := by
  obtain ⟨r, hr⟩ := h.formed.repetition_of_items hitems
  have := h.composed w hw
  rwa [if_neg (h.formed.of_repetition hr).1] at this

/-- The parts of a loop are items, or items and separators. -/
theorem Tree.Formed.loop_body {r : Repetition} (h : t.Formed n)
    (hr : (t.shapeOf n).repetition? = some r) :
    (∃ d items, t.shapeOf n = .loop d r ∧ (t.node n).body = .loop items) ∨
    ∃ d d' explicit items separators, t.shapeOf n = .separated d d' explicit r ∧
      (t.node n).body = .separated items separators ∧ separators.length = items.length - 1 := by
  cases hshape : t.shapeOf n with
  | loop d repetition =>
      obtain ⟨items, hbody, -⟩ := (formed_loop_iff hshape).1 h
      obtain rfl : repetition = r := by simpa [hshape, Rule.repetition?] using hr
      exact .inl ⟨d, items, rfl, hbody⟩
  | separated d d' explicit repetition =>
      obtain ⟨items, separators, hbody, -, -, hlength⟩ := (formed_separated_iff hshape).1 h
      obtain rfl : repetition = r := by simpa [hshape, Rule.repetition?] using hr
      exact .inr ⟨d, d', explicit, items, separators, rfl, hbody, hlength⟩
  | _ => simp [hshape, Rule.repetition?] at hr

/-- The items of a loop that stays one. -/
theorem Garden.items_eq {r : Repetition} (h : Garden t roots) (hn : t.Live n)
    (hr : (t.shapeOf n).repetition? = some r) : t.items n = .ok (t.node n).body.items := by
  rcases (h.sound n (h.live_iff.1 hn)).formed.loop_body hr with
    ⟨d, items, -, hbody⟩ | ⟨d, d', explicit, items, separators, -, hbody, -⟩
  · rw [hn.items_loop hbody, hbody]
    rfl
  · rw [(hn.items_separated hbody).1, hbody]
    rfl

/-- A loop that grew by one item grew by a separator, too, when it has separators. -/
theorem Tree.Formed.separator_of_grew {added : List NodeId} {separator : Option NodeId}
    {r : Repetition} (h : t.Formed n) (h' : t'.Formed n) (hlive' : t'.Live n)
    (hr : (t.shapeOf n).repetition? = some r) (hshape : t'.shapeOf n = t.shapeOf n)
    (hadded : added = item :: separator.toList ∨ added = separator.toList ++ [item])
    (hgrew : (t.node n).body.Grew (t'.node n).body added)
    (hitems : (t'.node n).body.items.length = (t.node n).body.items.length + 1) :
    separator.isSome ↔ ∃ s ss, t'.separators n = .ok (s :: ss) := by
  have hlength : added.length = separator.toList.length + 1 := by
    rcases hadded with rfl | rfl
    · simp
    · simp
  have howned := hgrew.owned.length_eq
  rw [List.length_append, hlength] at howned
  rcases h.loop_body hr with
    ⟨d, items, hloop, hbody⟩ | ⟨d, d', explicit, items, separators, hloop, hbody, hcount⟩
  · -- a loop without separators: the item is all that was added
    rcases h'.loop_body (hshape ▸ hr) with
      ⟨d₂, items', -, hbody'⟩ | ⟨d₂, d₂', explicit', items', separators', hloop', -⟩
    · rw [hbody, hbody'] at howned hitems
      have hnone : separator = none := by
        cases separator with
        | none => rfl
        | some s =>
            simp only [Body.owned, Body.items, Option.toList_some, List.length_singleton] at howned hitems
            omega
      simp [hnone, Tree.separators, hlive'.get_eq, bind, Except.bind, hbody', mismatch]
    · simp [hshape, hloop] at hloop'
  · rcases h'.loop_body (hshape ▸ hr) with
      ⟨d₂, items', hloop', -⟩ | ⟨d₂, d₂', explicit', items', separators', -, hbody', hcount'⟩
    · simp [hshape, hloop] at hloop'
    · rw [hbody, hbody'] at howned hitems
      simp only [Body.owned, Body.items, List.length_append] at howned hitems
      rw [(hlive'.items_separated hbody').2]
      cases separators' with
      | nil =>
          cases separator with
          | none => simp
          | some s =>
              simp only [List.length_nil, Option.toList_some, List.length_singleton] at howned hcount'
              omega
      | cons s ss =>
          cases separator with
          | none =>
              simp only [List.length_cons, Option.toList_none, List.length_nil] at howned hcount'
              omega
          | some s' => simp

/-- An item and its separator stand side by side among the parts of a loop. -/
theorem Tree.widened_of_grew {added : List NodeId} {separator : Option NodeId} (hlive : t.Live n)
    (hlive' : t'.Live n)
    (hadded : added = item :: separator.toList ∨ added = separator.toList ++ [item])
    (hseparator : separator.isSome ↔ ∃ s ss, t'.separators n = .ok (s :: ss))
    (hgrew : (t.node n).body.Grew (t'.node n).body added)
    (hkept : ∀ x ∈ (t.node n).body.owned, t'.node x = t.node x)
    (hw : ∀ w, (t.node n).content = some w → w = t.contents (t.node n).body.active)
    (hw' : ∀ w, (t'.node n).content = some w → w = t'.contents (t'.node n).body.active) :
    t.Widened t' n item := by
  obtain ⟨l, r, hactive, hactive'⟩ := hgrew.active
  have hside : ∀ x ∈ l ++ r, (t'.node x).content = (t.node x).content := by
    intro x hx
    rw [hkept x (Body.owned_of_active (hactive ▸ hx))]
  have hl : t'.contents l = t.contents l :=
    contents_congr fun x hx => hside x (List.mem_append_left _ hx)
  have hr : t'.contents r = t.contents r :=
    contents_congr fun x hx => hside x (List.mem_append_right _ hx)
  refine ⟨l, r, added, separator, hadded, hseparator, by rw [hlive.children_eq, hactive],
    by rw [hlive'.children_eq, hactive'], fun w w' hcontent hcontent' => ⟨?_, ?_⟩⟩
  · rw [hw w (hlive.content_eq_ok.1 hcontent), hactive, contents_append]
  · rw [hw' w' (hlive'.content_eq_ok.1 hcontent'), hactive', contents_append, contents_append, hl, hr]

/-! ### The calls -/

/-- A new content replaces one span of each ancestor, and nothing else. -/
theorem Garden.setContent_spliced {change : Change Unit} (h : Garden t roots)
    (hvalid : t.grammar.Valid) (hrank : t.grammar.Ranked)
    (hok : (t.setContent n text).result = .ok change) :
    change.tree.content n = .ok text ∧ t.Spliced change.tree n ∧ t.Untouched change.tree n := by
  obtain ⟨split, hlookup, -⟩ := setContent_ok hok
  rcases h.live_or_vacant hlookup with hn | ⟨hfree, hvacant⟩
  · obtain ⟨t₁, roots', ps, ns, hrevised, hset, -⟩ := h.setContent hvalid hrank hn hok
    have hnew : (change.tree.node n).content = some text := by rw [hrevised.node_eq, hset]
    exact ⟨hrevised.live.content_eq_ok.2 hnew, hrevised.spliced hnew⟩
  · -- a free slot has no ancestors
    obtain ⟨hr, hcontent, -⟩ := h.setContent_vacant hvalid hfree hok
    obtain ⟨hsize, hgeneration, -⟩ := lookup?_eq_some.1 hlookup
    have hget : change.tree.get n = .ok (change.tree.node n) :=
      get_eq_ok.2 (lookup?_eq_some.2 ⟨hr.size ▸ hsize,
        (hr.stays n.index).generation.trans hgeneration, rfl⟩)
    refine ⟨by simp [Tree.content, hget, bind, Except.bind, hcontent], fun p w hp _ hbelow _ => ?_,
      fun m hm _ _ => ?_⟩
    · have hmem := h.grove.activeBelow_mem (h.live_iff.1 hp) hbelow
      exact absurd hfree (h.apart.not_free (index_mem_slotsAll hmem))
    · exact ⟨hr.live_iff.2 hm, (h.retold_vacant hr hfree).2 m (h.live_iff.1 hm)⟩

/-- A new item widens the loop, and splices its ancestors. -/
theorem Garden.insert_spliced {change : Change NodeId} {index : Nat} (h : Garden t roots)
    (hvalid : t.grammar.Valid) (hrank : t.grammar.Ranked)
    (hok : t.insert n index text = .ok change) :
    t.Inserted change.tree n index change.value text := by
  obtain ⟨hn, t₁, roots', ps, ns, new, hrevised, -, hdefinition, hnew, hcomposed, hkept,
    ⟨items, hitems, hindex, hlist⟩, hitem, added, separator, hadded, hgrew⟩ :=
    h.insert hvalid hrank hok
  obtain ⟨hgarden, -, hgrammar, -⟩ := hrevised.garden
  have hsound := h.sound n hn
  have hlive := h.live_iff.2 hn
  have hlive' := hrevised.live
  obtain ⟨r, hr⟩ := hsound.formed.repetition_of_items hitems
  have hshape : change.tree.shapeOf n = t.shapeOf n := by rw [shapeOf, hgrammar, hdefinition]; rfl
  have hvalue : change.tree.Live change.value := by
    refine hgarden.live_iff.2 (hgarden.owned_mem (hgarden.live_iff.1 hlive')
      (hgrew.owned.symm.subset (List.mem_append_left _ ?_))).1
    rcases hadded with rfl | rfl
    · simp
    · simp
  obtain ⟨hspliced, huntouched⟩ := hrevised.spliced hnew
  refine ⟨⟨items, hitems, hindex, ?_⟩, hvalue.content_eq_ok.2 hitem,
    ⟨new, hlive'.content_eq_ok.2 hnew⟩, ?_, hspliced, huntouched⟩
  · rw [hgarden.items_eq hlive' (hshape ▸ hr), hlist]
  · have hsame : (t.node n).body.items = items :=
      Except.ok.inj ((h.items_eq hlive hr).symm.trans hitems)
    have hseparator := hsound.formed.separator_of_grew (hgarden.sound n (hgarden.live_iff.1 hlive')).formed
      hlive' hr hshape hadded hgrew (by rw [hlist, hsame, List.length_insertIdx_of_le_length hindex])
    refine widened_of_grew hlive hlive' hadded hseparator hgrew hkept
      (fun w hw => hsound.content_of_items hitems hw) fun w hw => ?_
    rw [← Option.some.inj (hnew.symm.trans hw)]
    exact hcomposed

/-- A loop was wider before an item was taken out, and its ancestors are spliced. -/
theorem Garden.remove_spliced {change : Change Unit} {index : Nat} (h : Garden t roots)
    (hok : t.remove n index = .ok change) :
    ∃ item, t.Removed change.tree n index item := by
  obtain ⟨hn, t₁, roots', ps, new, hrevised, hdefinition, hnew, hcomposed, hkept, items, item,
    separator, gone, hitems, hitem, hlist, hgone, hgrew⟩ := h.remove hok
  obtain ⟨hgarden, -, hgrammar, -⟩ := hrevised.garden
  have hsound := h.sound n hn
  have hlive := h.live_iff.2 hn
  have hlive' := hrevised.live
  obtain ⟨r, hr⟩ := hsound.formed.repetition_of_items hitems
  have hshape : change.tree.shapeOf n = t.shapeOf n := by rw [shapeOf, hgrammar, hdefinition]; rfl
  obtain ⟨hspliced, huntouched⟩ := hrevised.spliced hnew
  refine ⟨item, ⟨items, hitems, hitem, ?_⟩, ⟨new, hlive'.content_eq_ok.2 hnew⟩, ?_, hspliced,
    huntouched⟩
  · rw [hgarden.items_eq hlive' (hshape ▸ hr), hlist]
  · have hsame : (t.node n).body.items = items :=
      Except.ok.inj ((h.items_eq hlive hr).symm.trans hitems)
    obtain ⟨hindex, -⟩ := List.getElem?_eq_some_iff.1 hitem
    have hseparator := (hgarden.sound n (hgarden.live_iff.1 hlive')).formed.separator_of_grew
      hsound.formed hlive (hshape ▸ hr) hshape.symm hgone hgrew
      (by rw [hlist, hsame, List.length_eraseIdx_of_lt hindex]; omega)
    refine widened_of_grew hlive' hlive hgone hseparator hgrew (fun x hx => (hkept x hx).symm)
      (fun w hw => ?_) fun w hw => hsound.content_of_items hitems hw
    rw [← Option.some.inj (hnew.symm.trans hw)]
    exact hcomposed

/-- A live node that keeps its content and its parent, whose active parts stay, is as active as
before. -/
theorem Kept.reads (hkept : Kept t t' roots) (h : Garden t roots) (h' : Garden t' roots')
    (hx : t.Live x) :
    t'.Live x ∧ t'.content x = t.content x ∧ t'.isActive x = t.isActive x := by
  have hmem := h.live_iff.1 hx
  have hx' := hkept.live x hx
  have hmem' := h'.live_iff.1 hx'
  refine ⟨hx', by simp [Tree.content, hx.get_eq, hx'.get_eq, bind, Except.bind,
    hkept.content x hmem], ?_⟩
  rw [hx.isActive_eq, hx'.isActive_eq]
  refine congrArg Except.ok ?_
  rw [Bool.eq_iff_iff, Option.isSome_iff_exists, Option.isSome_iff_exists]
  refine exists_congr fun p => ?_
  rw [activeParent?_eq_some fun q hq => (h.sound q (h.owner hmem hq).1).formed,
    activeParent?_eq_some fun q hq => (h'.sound q (h'.owner hmem' hq).1).formed,
    hkept.parent x hmem]
  refine and_congr_right fun hp => ?_
  rw [hkept.active p (h.owner hmem hp).1]

/-- **Edits of a tree in use splice and touch nothing else.**  A new content, a new item and an item
that is taken out replace one span of the content of each ancestor that depends on the edited node, and
whatever lies elsewhere is the same afterwards.  A node that is made on first use changes no content
and no activity. -/
theorem Session.splice_run {draft : Draft} (hbuild : draft.build = .ok g) {ops : List Operation}
    (hrun : (Session.run g ops).tree = t) (n : NodeId) :
    (∀ text change, (t.setContent n text).result = .ok change →
      change.tree.content n = .ok text ∧ t.Spliced change.tree n ∧ t.Untouched change.tree n) ∧
    (∀ index text change, t.insert n index text = .ok change →
      t.Inserted change.tree n index change.value text) ∧
    (∀ text change, t.push n text = .ok change → ∃ items, t.items n = .ok items ∧
      t.Inserted change.tree n items.length change.value text) ∧
    (∀ index change, t.remove n index = .ok change →
      ∃ item, t.Removed change.tree n index item) ∧
    ∀ change, ((∃ index, t.alternative n index = .ok change) ∨
        (∃ d, t.alternativeOf n d = .ok change) ∨ t.optionalChild n = .ok change) →
      ∀ m, t.Live m → change.tree.Live m ∧ change.tree.content m = t.content m ∧
        change.tree.isActive m = t.isActive m := by
  have hvalid := Draft.build_valid hbuild
  have hrank := Draft.build_ranked hbuild
  obtain ⟨hgrammar, -, roots, hgarden, -⟩ := Session.tended_run hvalid hrank ops
  rw [hrun] at hgrammar hgarden
  subst hgrammar
  refine ⟨fun text change hok => hgarden.setContent_spliced hvalid hrank hok,
    fun index text change hok => hgarden.insert_spliced hvalid hrank hok,
    fun text change hok => ?_, fun index change hok => hgarden.remove_spliced hok,
    fun change hok m hm => ?_⟩
  · obtain ⟨items, hitems, hinsert⟩ := push_ok hok
    exact ⟨items, hitems, hgarden.insert_spliced hvalid hrank hinsert⟩
  · obtain ⟨⟨roots', hgarden', -⟩, hkept, -⟩ := hgarden.made hvalid hrank hok
    exact hkept.reads hgarden hgarden' hm

/-- The first part of a row gets a second letter; the row above it has three then. -/
theorem Session.splice_run_row :
    ∃ change, (rowTree.setContent ⟨2, 0⟩ ['a', 'a']).result = .ok change ∧
      change.tree.content ⟨0, 0⟩ = .ok ['a', 'a', 'a'] ∧ rowTree.Spliced change.tree ⟨2, 0⟩ ∧
      rowTree.Untouched change.tree ⟨2, 0⟩ := by
  obtain ⟨-, hspliced, huntouched⟩ :=
    (Session.splice_run rowDraft_build run_rowOperations ⟨2, 0⟩).1 _ _ setContent_row
  exact ⟨rowLonger, setContent_row, rfl, hspliced, huntouched⟩

end Tessera
