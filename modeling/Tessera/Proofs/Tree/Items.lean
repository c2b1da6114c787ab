/-
**Items of loops.**

An inserted item, and the separator that comes with it, stand side by side among the parts that make
up the content of the loop; so do a removed item and the separator that goes with it.

Main definitions:

* `Tessera.Body.Grew` — parts were put among the parts of a node, side by side.

Main results:

* `Tessera.Body.grew_separated` — where an item and its separator are put;
* `Tessera.Garden.recompose` — the parts of a loop were changed, and its content is composed anew;
* `Tessera.Garden.insert_node`, `Tessera.Garden.remove_node` — **what becomes of a live loop**;
* `Tessera.Garden.insert`, `Tessera.Garden.remove` — **items of live loops**.
-/

import Mathlib.Data.List.InsertIdx
import Tessera.Proofs.Grammar.Valid
import Tessera.Proofs.Tree.Contents

set_option autoImplicit false

namespace Tessera

open Branch Tessera.Tree

variable {t t' : Tree} {id n p x item : NodeId} {ps : List NodeId} {roots roots' : List Branch}
  {b c c' : Branch} {ps' qs us : List Branch} {freed : List Nat} {e e' : Edit} {text : Text} {index : Nat}

/-! ### Where the parts stand -/

/-- Parts were put among the parts of a node, side by side. -/
structure Body.Grew (body body' : Body) (added : List NodeId) : Prop where
  active : ∃ l r, body.active = l ++ r ∧ body'.active = l ++ added ++ r
  owned : body'.owned.Perm (added ++ body.owned)

namespace Body

/-- The active parts are the old ones and the new ones. -/
theorem Grew.mem_active {body body' : Body} {added : List NodeId} {x : NodeId}
    (h : body.Grew body' added) : x ∈ body'.active ↔ x ∈ body.active ∨ x ∈ added := by
  obtain ⟨l, r, hactive, hactive'⟩ := h.active
  rw [hactive, hactive']
  simp only [List.mem_append]
  tauto

theorem interleave_insertIdx {items separators : List NodeId}
    (hlength : separators.length = items.length - 1) (hpos : 0 < items.length)
    (hindex : index ≤ items.length) (item separator : NodeId) :
    ∃ l r, interleave items separators = l ++ r ∧
      interleave (items.insertIdx index item)
        (separators.insertIdx (min index separators.length) separator) =
          l ++ (if index < items.length then [item, separator] else [separator, item]) ++ r := by
  induction items generalizing separators index with
  | nil => simp at hpos
  | cons first items ih =>
      cases index with
      | zero =>
          -- the new item is the first one, and its separator stands behind it
          refine ⟨[], interleave (first :: items) separators, rfl, ?_⟩
          rw [Nat.zero_min, if_pos hpos]
          rfl
      | succ index =>
          cases items with
          | nil =>
              -- behind the only item, the separator stands before the new one
              obtain rfl : separators = [] := List.length_eq_zero_iff.1 hlength
              obtain rfl : index = 0 := by simpa using hindex
              exact ⟨[first], [], rfl, rfl⟩
          | cons second items =>
              cases separators with
              | nil => simp at hlength
              | cons next separators =>
                  have hlength' : separators.length = (second :: items).length - 1 := by
                    simpa using hlength
                  have hindex' : index ≤ (second :: items).length := by simpa using hindex
                  obtain ⟨l, r, hlr, hnew⟩ := ih hlength' (by simp) hindex'
                  refine ⟨first :: next :: l, r, ?_, ?_⟩
                  · rw [interleave, hlr]
                    rfl
                  · rw [List.length_cons, Nat.succ_min_succ, List.insertIdx_succ_cons,
                      List.insertIdx_succ_cons, interleave, hnew]
                    simp only [List.length_cons, Nat.add_lt_add_iff_right, List.cons_append]

/-- An item alone is put among the items of a loop. -/
theorem grew_loop {items : List NodeId} (hindex : index ≤ items.length) (item : NodeId) :
    Grew (.loop items) (.loop (items.insertIdx index item)) [item] where
  active := by
    obtain ⟨l, r, rfl, rfl⟩ : ∃ l r, items = l ++ r ∧ index = l.length :=
      ⟨items.take index, items.drop index, by simp, by simpa using hindex⟩
    refine ⟨l, r, rfl, ?_⟩
    clear hindex
    induction l with
    | nil => rfl
    | cons first l ih => exact congrArg (List.cons first) ih
  owned := List.perm_insertIdx item items hindex

/-- An item is put into an empty loop. -/
theorem grew_empty (item : NodeId) : Grew (.separated [] []) (.separated [item] []) [item] where
  active := ⟨[], [], rfl, rfl⟩
  owned := .refl _

/-- **Where an item and its separator are put.** -/
theorem grew_separated {items separators : List NodeId}
    (hlength : separators.length = items.length - 1) (hpos : 0 < items.length)
    (hindex : index ≤ items.length) (item separator : NodeId) :
    ∃ added, (added = [item, separator] ∨ added = [separator, item]) ∧
      Grew (.separated items separators) (.separated (items.insertIdx index item)
        (separators.insertIdx (min index separators.length) separator)) added := by
  obtain ⟨l, r, hlr, hnew⟩ := interleave_insertIdx hlength hpos hindex item separator
  generalize hadded : (if index < items.length then [item, separator] else [separator, item]) =
    added at hnew
  have hadded : added = [item, separator] ∨ added = [separator, item] := by
    rw [← hadded]
    split
    · exact .inl rfl
    · exact .inr rfl
  refine ⟨added, hadded, ⟨l, r, hlr, hnew⟩, ?_⟩
  have hitems := List.perm_insertIdx item items hindex
  have hseparators := List.perm_insertIdx separator separators (Nat.min_le_right index _)
  have hall : (items.insertIdx index item ++
      separators.insertIdx (min index separators.length) separator).Perm
      ([item, separator] ++ (items ++ separators)) := by
    refine (hitems.append hseparators).trans ?_
    rw [List.cons_append]
    exact .cons _ List.perm_middle
  rcases hadded with rfl | rfl
  · exact hall
  · exact hall.trans (.swap _ _ _)

end Body

/-- Handles that are those of branches in another order. -/
theorem Branch.exists_perm_roots {ids : List NodeId} (h : ids.Perm (qs.map Branch.root)) :
    ∃ qs' : List Branch, qs'.Perm qs ∧ qs'.map Branch.root = ids := by
  induction ids generalizing qs with
  | nil => exact ⟨[], by rw [List.map_eq_nil_iff.1 h.nil_eq.symm], rfl⟩
  | cons id ids ih =>
      obtain ⟨l, d, r, rfl, rfl⟩ := exists_part (h.subset List.mem_cons_self)
      rw [List.map_append, List.map_cons] at h
      have hrest : ids.Perm ((l ++ r).map Branch.root) := by
        rw [List.map_append]
        exact (h.trans List.perm_middle).cons_inv
      obtain ⟨qs', hperm, hroots⟩ := ih hrest
      refine ⟨d :: qs', (hperm.cons d).trans List.perm_middle.symm, ?_⟩
      rw [List.map_cons, hroots]

/-! ### A loop whose parts were changed -/

namespace Opened

variable {parent : Option NodeId} {t₂ : Tree}

/-- New branches elsewhere leave a node as it is. -/
theorem node_sprout (h : Opened t parent n ps') (hr : Regrown t t₂ (some n) [] us freed) :
    t₂.node n = t.node n :=
  (h.step_append hr).2

/-- **New branches are put next to the parts of a node**, and the node takes a new list of its
parts. -/
theorem sprout (h : Opened t parent n ps') (hr : Regrown t t₂ (some n) [] us freed) (body : Body) :
    Reopened t (t₂.setBody n body) parent n ps' (ps' ++ us) freed ∧
      (t₂.setBody n body).node n = { t.node n with body := body } ∧
      (∀ x ∈ idsAll ps', (t₂.setBody n body).node x = t.node x) ∧
      ∀ x ∈ idsAll us, (t₂.setBody n body).node x = t₂.node x := by
  obtain ⟨hre, hself⟩ := h.step_append hr
  obtain ⟨hre', hnode, hparts⟩ := hre.opened.setBody body
  rw [hself] at hnode
  refine ⟨?_, hnode, fun x hx => ?_, fun x hx => hparts x (by simp [hx])⟩
  · simpa using hre.trans hre'
  · have hap : t.Apart (slotsAll ps' ++ slotsAll []) := by simpa using h.grove.apart
    rw [hparts x (by simp [hx])]
    exact hr.rework.slot_eq hap (index_mem_slotsAll hx)

/-- **Some parts of a node are released**, after the node took the list of those that stay. -/
theorem prune {gs rs : List Branch} (h : Opened t parent n (gs ++ rs)) (body : Body) :
    ∃ freed, Reopened t ((t.setBody n body).release (gs.map Branch.root)) parent n (gs ++ rs) rs freed ∧
      (∀ i, freed.count i = (slotsAll gs).count i) ∧
      ((t.setBody n body).release (gs.map Branch.root)).node n = { t.node n with body := body } ∧
      ∀ x ∈ idsAll rs, ((t.setBody n body).release (gs.map Branch.root)).node x = t.node x := by
  obtain ⟨hre, hnode, hparts⟩ := h.setBody body
  obtain ⟨freed, hrelease, hcount⟩ := release_regrown hre.opened.grove.left
  have hopened : Opened (t.setBody n body) parent n ([] ++ gs ++ rs) := by simpa using hre.opened
  obtain ⟨hre', hself⟩ := hopened.step hrelease
  obtain ⟨-, hrest⟩ := hrelease.rest hre.opened.grove
  refine ⟨freed, by simpa using hre.trans hre', hcount, hself.trans hnode, fun x hx => ?_⟩
  rw [hrest x hx, hparts x (by simp [hx])]

end Opened

/-- Whoever repeats something is no leaf and no choice. -/
theorem Tree.Formed.of_repetition {r : Repetition} (h : t.Formed n)
    (hr : (t.shapeOf n).repetition? = some r) :
    ¬ (t.shapeOf n).isLeaf = true ∧
      ∀ alternatives current, (t.node n).body ≠ .choice alternatives current := by
  cases hshape : t.shapeOf n with
  | loop item repetition =>
      obtain ⟨items, hbody, -⟩ := (formed_loop_iff hshape).1 h
      simp [Rule.isLeaf, hbody]
  | separated item separator default repetition =>
      obtain ⟨items, separators, hbody, -⟩ := (formed_separated_iff hshape).1 h
      simp [Rule.isLeaf, hbody]
  | _ => simp [hshape, Rule.repetition?] at hr

/-- **The parts of a loop were changed, and its content is composed anew**: the change is carried
up. -/
theorem Garden.recompose {body : Body} {r : Repetition} (h : Garden t roots) (hb : b ∈ roots)
    (hin : (Branch.fork n ps').Inside b)
    (hc : (Branch.fork n ps').Stands t (t.node n).parent)
    (hre : Reopened t e.tree (t.node n).parent n ps' qs freed)
    (hle : ∀ i, freed.count i ≤ (slotsAll ps').count i)
    (hself : e.tree.node n = { t.node n with body := body })
    (howned : body.owned.Perm (qs.map Branch.root)) (hformed : e.tree.Formed n)
    (hset : ∀ c ∈ body.active, (e.tree.node c).content.isSome)
    (hr : (e.tree.shapeOf n).repetition? = some r) (hadmits : r.admits body.items.length = true) :
    ∃ t₁ roots' ps, Revised t t₁ (Edit.propagateUp n (e.recompose n)).tree roots roots' n ps
        (Edit.propagateUp n (e.recompose n)).notices.reverse (e.notices.reverse ++
          [⟨n, (t.node n).content, e.tree.contents body.active, (t.node n).listeners⟩]) ∧
      (Edit.propagateUp n (e.recompose n)).tree.node n =
        { t.node n with body := body, content := some (e.tree.contents body.active) } ∧
      ∀ x ∈ idsAll qs, (Edit.propagateUp n (e.recompose n)).tree.node x = e.tree.node x := by
  obtain ⟨qs', hqs, hroots⟩ := Branch.exists_perm_roots howned
  have ho := (Opened.of_grove (h.grove_of_inside hb hin hc)).1
  have hre := hre.perm ho (.refl ps') hqs.symm
  have hbody : (e.tree.node n).body = body := by rw [hself]
  obtain ⟨hleaf, hchoice⟩ := hformed.of_repetition hr
  have hcomposed : Edit.composed e.tree n = e.tree.contents body.active := by
    rw [Edit.composed, hbody]
    rfl
  have hsound : (e.recompose n).tree.Sound n := by
    refine hre.opened.sound_store (by rw [hbody, hroots]) hformed (by rwa [hbody])
      (fun alternatives current hbody' => absurd hbody' (hchoice _ _)) (fun r' hr' => ?_) ?_
    · rw [hr] at hr'
      rw [hbody, ← Option.some.inj hr']
      exact hadmits
    · rw [if_neg hleaf, hcomposed, hbody]
  obtain ⟨hstore, hnode, hparts⟩ := hre.opened.modify
    (f := fun m => { m with content := some (Edit.composed e.tree n) }) ⟨rfl, rfl, rfl⟩ rfl
  change Reopened e.tree (e.recompose n).tree _ n qs' qs' [] at hstore
  change (e.recompose n).tree.node n = _ at hnode
  change ∀ x ∈ idsAll qs', (e.recompose n).tree.node x = e.tree.node x at hparts
  have hclosed := (hre.trans hstore).close (by rw [hnode, hbody, hroots]) hsound
  rw [List.append_nil] at hclosed
  obtain ⟨roots', anc, hedited, hnotices⟩ := h.edit (e := e.recompose n) hb hin hc hclosed rfl
    (Reopened.spared_fork ho hle) fun _ => by rw [root_fork, hnode]; rfl
  refine ⟨_, roots', anc, ⟨⟨_, _, freed, rfl, hedited⟩, ?_⟩, ?_, fun x hx => ?_⟩
  · simp only [root_fork] at hnotices
    rw [hnotices, List.reverse_append, List.reverse_reverse, Edit.recompose, Edit.store, hcomposed,
      hself, List.reverse_cons]
  · have := hedited.node_inside (x := n) (by simp)
    simp only [root_fork] at this
    rw [this, hnode, hcomposed, hself]
  · have hx : x ∈ idsAll qs' := by
      obtain ⟨d, hd, hx⟩ := mem_idsAll.1 hx
      exact mem_idsAll.2 ⟨d, hqs.mem_iff.2 hd, hx⟩
    rw [← hparts x hx]
    exact hedited.node_inside (List.mem_cons_of_mem _ hx)

/-! ### Loops as the calls see them -/

namespace Tree

/-- What a loop node repeats, read off its rule. -/
theorem loopRule_ok {rule : LoopRule} (h : t.loopRule n = .ok rule) :
    (t.shapeOf n = .loop rule.item rule.repetition ∧ rule.separator = none) ∨
      ∃ d explicit, t.shapeOf n = .separated rule.item d explicit rule.repetition ∧
        rule.separator = some (d, explicit) := by
  unfold loopRule at h
  obtain ⟨node, hget, h⟩ := Except.bind_eq_ok.1 h
  obtain ⟨-, -, rfl⟩ := lookup?_eq_some.1 (get_eq_ok.1 hget)
  unfold shapeOf
  split at h
  · next item repetition hshape =>
      obtain rfl := Except.ok.inj h
      exact .inl ⟨hshape, rfl⟩
  · next item separator default repetition hshape =>
      obtain rfl := Except.ok.inj h
      exact .inr ⟨separator, default, hshape, rfl⟩
  · cases h

theorem repetition_of_loopRule {rule : LoopRule} (h : t.loopRule n = .ok rule) :
    (t.shapeOf n).repetition? = some rule.repetition := by
  rcases loopRule_ok h with ⟨hshape, -⟩ | ⟨d, explicit, hshape, -⟩
  · rw [hshape]
    rfl
  · rw [hshape]
    rfl

/-- The items of a loop node, read off its parts. -/
theorem items_ok {items : List NodeId} (h : t.items n = .ok items) :
    t.lookup? n = some (t.node n) ∧ ((t.node n).body = .loop items ∨
      ∃ separators, (t.node n).body = .separated items separators) := by
  unfold Tree.items at h
  obtain ⟨node, hget, h⟩ := Except.bind_eq_ok.1 h
  have hlookup := get_eq_ok.1 hget
  obtain ⟨-, -, rfl⟩ := lookup?_eq_some.1 hlookup
  refine ⟨hlookup, ?_⟩
  split at h
  · next hbody =>
      obtain rfl := Except.ok.inj h
      exact .inl hbody
  · next separators hbody =>
      obtain rfl := Except.ok.inj h
      exact .inr ⟨separators, hbody⟩
  · cases h

/-- The two kinds of loops. -/
theorem Formed.loop_cases {rule : LoopRule} {items : List NodeId} (h : t.Formed n)
    (hrule : t.loopRule n = .ok rule) (hitems : t.items n = .ok items) :
    (t.shapeOf n = .loop rule.item rule.repetition ∧ rule.separator = none ∧
      (t.node n).body = .loop items ∧ ∀ c ∈ items, (t.node c).definition = rule.item) ∨
    ∃ d explicit separators, t.shapeOf n = .separated rule.item d explicit rule.repetition ∧
      rule.separator = some (d, explicit) ∧ (t.node n).body = .separated items separators ∧
      (∀ c ∈ items, (t.node c).definition = rule.item) ∧
      (∀ c ∈ separators, (t.node c).definition = d) ∧ separators.length = items.length - 1 := by
  obtain ⟨-, hbody⟩ := items_ok hitems
  rcases loopRule_ok hrule with ⟨hshape, hnone⟩ | ⟨d, explicit, hshape, hsome⟩
  · obtain ⟨items', hbody', hdefs⟩ := (formed_loop_iff hshape).1 h
    rw [hbody'] at hbody
    obtain rfl : items' = items := by simpa using hbody
    exact .inl ⟨hshape, hnone, hbody', hdefs⟩
  · obtain ⟨items', separators, hbody', hdefs, hdefs', hlength⟩ := (formed_separated_iff hshape).1 h
    rw [hbody'] at hbody
    obtain rfl : items' = items := by simpa using hbody
    exact .inr ⟨d, explicit, separators, hshape, hsome, hbody', hdefs, hdefs', hlength⟩

/-- Only loops have items. -/
theorem Formed.repetition_of_items {items : List NodeId} (h : t.Formed n)
    (hitems : t.items n = .ok items) : ∃ r, (t.shapeOf n).repetition? = some r := by
  obtain ⟨-, hbody⟩ := items_ok hitems
  cases hshape : t.shapeOf n with
  | loop item repetition => exact ⟨repetition, rfl⟩
  | separated item separator default repetition => exact ⟨repetition, rfl⟩
  | _ =>
      unfold Formed at h
      rw [hshape] at h
      grind

/-- A call on the items of a loop found a live node. -/
theorem live_of_items (h : Planted t roots) {items : List NodeId} (hitems : t.items n = .ok items) :
    n ∈ idsAll roots := by
  obtain ⟨hlookup, hbody⟩ := items_ok hitems
  rcases h.live_or_vacant hlookup with hn | ⟨-, hvacant⟩
  · exact hn
  · rw [hvacant.body] at hbody
    simp at hbody

/-- The active parts of a loop hold contents, whether the loop does or not. -/
theorem Sound.isSome_of_loop {items : List NodeId} (h : t.Sound n) (hitems : t.items n = .ok items)
    (hx : x ∈ (t.node n).body.active) : (t.node x).content.isSome := by
  by_cases hset : (t.node n).content = none
  · -- a loop without a content has no parts
    have hidle := h.settled.idle hset
    obtain ⟨-, hbody | ⟨separators, hbody⟩⟩ := items_ok hitems
    · rw [hidle.active_eq (by simp [hbody])] at hx
      simp at hx
    · rw [hidle.active_eq (by simp [hbody])] at hx
      simp at hx
  · exact h.settled.active (Option.isSome_iff_ne_none.2 hset) x hx

end Tree

/-! ### Inserted items -/

/-- A new node for the separator that comes with an item, if one does. -/
def Edit.spawnSeparator (separator : Option (DefId × Text × Split)) (p : NodeId) (e : Edit) :
    Option NodeId × Edit :=
  match separator with
  | some (d, text, split) =>
      let (s, e) := Edit.spawn text split d p e
      (some s, e)
  | none => (none, e)

namespace Tree

theorem checkCount_ok {r : Repetition} {count : Nat} (h : checkCount n r count = .ok ()) :
    r.admits count = true := by
  unfold checkCount at h
  by_contra hnot
  rw [if_neg hnot] at h
  cases h

/-- What an insertion that succeeds found, and what it did. -/
theorem insert_ok {change : Change NodeId} (h : t.insert n index text = .ok change) :
    ∃ rule items split separator, t.loopRule n = .ok rule ∧ t.items n = .ok items ∧
      index ≤ items.length ∧ rule.repetition.admits (items.length + 1) = true ∧
      (resolve t.grammar rule.item text).result = .ok split ∧
      t.newSeparator n rule items.length = .ok separator ∧
      ∃ item e₁ s e₂, Edit.spawn text split rule.item n ⟨t, []⟩ = (item, e₁) ∧
        Edit.spawnSeparator separator n e₁ = (s, e₂) ∧
        change = (Edit.propagateUp n ((e₂.onTree fun t =>
          t.setBody n (insertParts (t.node n).body index item s)).recompose n)).result item := by
  unfold Tree.insert at h
  obtain ⟨rule, hrule, h⟩ := Except.bind_eq_ok.1 h
  obtain ⟨items, hitems, h⟩ := Except.bind_eq_ok.1 h
  dsimp only at h
  split at h
  · obtain ⟨_, hthrow, _⟩ := Except.bind_eq_ok.1 h
    cases hthrow
  next hindex =>
  obtain ⟨⟨⟩, hcount, h⟩ := Except.bind_eq_ok.1 h
  obtain ⟨split, hsplit, h⟩ := Except.bind_eq_ok.1 h
  obtain ⟨separator, hseparator, h⟩ := Except.bind_eq_ok.1 h
  have hcount : rule.repetition.admits (items.length + 1) = true := checkCount_ok hcount
  have hsplit := Outcome.split_eq_ok.1 hsplit
  refine ⟨rule, items, split, separator, hrule, hitems, Nat.le_of_not_lt hindex, hcount, hsplit,
    hseparator, _, _, _, _, rfl, rfl, ?_⟩
  exact (Except.ok.inj h).symm

/-- A separator comes with an item when the loop has separators and is not empty. -/
theorem newSeparator_ok {rule : LoopRule} {len : Nat} {separator : Option (DefId × Text × Split)}
    (h : t.newSeparator n rule len = .ok separator) :
    (separator.isSome ↔ rule.separator.isSome ∧ 0 < len) ∧
      ∀ d w split, separator = some (d, w, split) →
        (∃ explicit, rule.separator = some (d, explicit)) ∧
          (resolve t.grammar d w).result = .ok split := by
  unfold newSeparator at h
  split at h
  · next d explicit hrule =>
      split at h
      · next hlen =>
          obtain ⟨w, -, h⟩ := Except.bind_eq_ok.1 h
          obtain ⟨split, hsplit, h⟩ := Except.bind_eq_ok.1 h
          obtain rfl : some (d, w, split) = separator := Except.ok.inj h
          simp only [hrule, Option.isSome_some, hlen, and_self, true_and, Option.some.injEq,
            Prod.mk.injEq]
          rintro d' w' split' ⟨rfl, rfl, rfl⟩
          exact ⟨⟨explicit, rfl, rfl⟩, Outcome.split_eq_ok.1 hsplit⟩
      · next hlen =>
          obtain rfl : none = separator := Except.ok.inj h
          simp [hlen]
  · next hrule =>
      obtain rfl : none = separator := Except.ok.inj h
      simp [hrule]

/-- The parts of a loop after an insertion. -/
theorem insertParts_grew {rule : LoopRule} {items : List NodeId} {s : Option NodeId}
    (h : t.Formed n) (hrule : t.loopRule n = .ok rule) (hitems : t.items n = .ok items)
    (hindex : index ≤ items.length) (hs : s.isSome ↔ rule.separator.isSome ∧ 0 < items.length)
    (item : NodeId) :
    (insertParts (t.node n).body index item s).items = items.insertIdx index item ∧
      ∃ added, (added = item :: s.toList ∨ added = s.toList ++ [item]) ∧
        (t.node n).body.Grew (insertParts (t.node n).body index item s) added := by
  rcases h.loop_cases hrule hitems with ⟨-, hnone, hbody, -⟩ |
    ⟨d, explicit, separators, -, hsome, hbody, -, -, hlength⟩
  · obtain rfl : s = none := by simpa [hnone] using hs
    rw [hbody]
    exact ⟨rfl, _, .inl rfl, Body.grew_loop hindex item⟩
  · rw [hbody]
    refine ⟨rfl, ?_⟩
    cases s with
    | none =>
        -- the loop is empty
        obtain rfl : items = [] := by simpa [hsome] using hs
        obtain rfl : separators = [] := List.length_eq_zero_iff.1 hlength
        obtain rfl : index = 0 := by simpa using hindex
        exact ⟨_, .inl rfl, Body.grew_empty item⟩
    | some s =>
        have hpos : 0 < items.length := (hs.1 rfl).2
        exact Body.grew_separated hlength hpos hindex item s

/-- A loop has the parts that its rule asks for after an insertion. -/
theorem insertParts_formed {rule : LoopRule} {items : List NodeId} {s : Option NodeId}
    (h : t.Formed n) (hrule : t.loopRule n = .ok rule) (hitems : t.items n = .ok items)
    (hindex : index ≤ items.length) (hs : s.isSome ↔ rule.separator.isSome ∧ 0 < items.length)
    (hshape : t'.shapeOf n = t.shapeOf n)
    (hbody' : (t'.node n).body = insertParts (t.node n).body index item s)
    (hkept : ∀ c ∈ (t.node n).body.owned, (t'.node c).definition = (t.node c).definition)
    (hitem : (t'.node item).definition = rule.item)
    (hseparator : ∀ x d explicit, s = some x → rule.separator = some (d, explicit) →
      (t'.node x).definition = d) : t'.Formed n := by
  rcases h.loop_cases hrule hitems with ⟨hrep, -, hbody, hdefs⟩ |
    ⟨d, explicit, separators, hrep, hsome, hbody, hdefs, hdefs', hlength⟩
  · refine (formed_loop_iff (hshape.trans hrep)).2 ⟨_, by rw [hbody', hbody]; rfl, fun c hc => ?_⟩
    rw [hbody] at hkept
    rcases List.eq_or_mem_of_mem_insertIdx hc with rfl | hc
    · exact hitem
    · rw [hkept c hc, hdefs c hc]
  · rw [hbody] at hbody' hkept
    have hitems' : ∀ c ∈ items.insertIdx index item, (t'.node c).definition = rule.item := by
      intro c hc
      rcases List.eq_or_mem_of_mem_insertIdx hc with rfl | hc
      · exact hitem
      · rw [hkept c (List.mem_append_left _ hc), hdefs c hc]
    refine (formed_separated_iff (hshape.trans hrep)).2
      ⟨_, _, hbody', hitems', fun c hc => ?_, ?_⟩
    · cases s with
      | none => rw [hkept c (List.mem_append_right _ hc), hdefs' c hc]
      | some s =>
          rcases List.eq_or_mem_of_mem_insertIdx hc with rfl | hc
          · exact hseparator c d explicit rfl hsome
          · rw [hkept c (List.mem_append_right _ hc), hdefs' c hc]
    · cases s with
      | none =>
          obtain rfl : items = [] := by simpa [hsome] using hs
          obtain rfl : separators = [] := List.length_eq_zero_iff.1 hlength
          obtain rfl : index = 0 := by simpa using hindex
          rfl
      | some s =>
          have hpos : 0 < items.length := (hs.1 rfl).2
          rw [List.length_insertIdx_of_le_length (Nat.min_le_right _ _),
            List.length_insertIdx_of_le_length hindex]
          omega

end Tree

/-- A slot that is taken for a new node belongs to no live one. -/
theorem Tree.Rework.not_live {after : List Nat} (h : t.Rework t' [] after freed)
    (hx : x.index ∈ after) : ¬ t.Live x := by
  intro hlive
  have hcount := h.count x.index
  rw [List.count_nil, List.count_eq_zero.2 hlive.occupied,
    if_neg fun hnew => Nat.not_lt.2 hnew.1 hlive.size] at hcount
  have := List.count_pos_iff.2 hx
  omega

namespace Edit

/-- A new item and the separator that comes with it follow their texts. -/
theorem spawn_spawnSeparator {g : Grammar} {split : Split} {d : DefId} {e₁ e₂ : Edit}
    {separator : Option (DefId × Text × Split)} {s : Option NodeId} (hvalid : g.Valid)
    (hrank : g.Ranked) (hg : e.tree.grammar = g) (hap : e.tree.Apart []) (hfits : split.Fits g text d)
    (hfits' : ∀ d' w split', separator = some (d', w, split') → split'.Fits g w d')
    (hitem : spawn text split d n e = (item, e₁)) (hs : spawnSeparator separator n e₁ = (s, e₂)) :
    ∃ us texts ns, us.map Branch.root = item :: s.toList ∧
      e.Makes e₂ (some n) [] us (split.content text :: texts) [] ns ∧
      (e₂.tree.node item).definition = d ∧ s.isSome = separator.isSome ∧
      ∀ d' w split', separator = some (d', w, split') → ∀ x, s = some x →
        (e₂.tree.node x).definition = d' := by
  obtain ⟨u, ns, rfl, hmakes, hdef⟩ := spawn_makes hvalid hrank hg hap hfits hitem
  cases separator with
  | none =>
      obtain ⟨rfl, rfl⟩ : none = s ∧ e₁ = e₂ := by simpa [spawnSeparator] using hs
      exact ⟨[u], [], ns, rfl, hmakes, hdef, rfl, by simp⟩
  | some separator =>
      obtain ⟨d', w, split'⟩ := separator
      rcases hspawn : spawn w split' d' n e₁ with ⟨x, e₃⟩
      obtain ⟨rfl, rfl⟩ : some x = s ∧ e₃ = e₂ := by simpa [spawnSeparator, hspawn] using hs
      have hap₁ : e₁.tree.Apart [] := hmakes.regrown.grove.apart.mono (by simp)
      obtain ⟨v, ns', rfl, hmakes', hdef'⟩ := spawn_makes hvalid hrank
        (hmakes.regrown.rework.grammar.trans hg) hap₁ (hfits' d' w split' rfl) hspawn
      have hnil : Grove e.tree (some n) ([] ++ []) := .nil hap
      have hall := hmakes.append hnil hmakes'
      obtain ⟨-, hsame⟩ := hmakes.regrown.append hnil hmakes'.regrown
      refine ⟨[u] ++ [v], [split'.content w], ns ++ ns', rfl, hall, ?_, rfl, ?_⟩
      · rw [hsame u.root (by simpa using u.root_mem_ids)]
        exact hdef
      · rintro d'' w' split'' h x h'
        cases h
        cases h'
        exact hdef'

/-- Nobody listens to new nodes. -/
theorem Makes.unheard {parent : Option NodeId} {bs : List Branch} {texts : List Text}
    {ns : List Notice} (h : e.Makes e' parent [] bs texts freed ns) : ∀ m ∈ ns, m.listeners = [] := by
  intro m hm
  by_contra hheard
  have hmem := index_mem_slotsAll (h.reported.mem_ids h.regrown.grove hm)
  rw [h.reported.listeners m hm] at hheard
  have := (h.regrown.rework.heard hmem hheard).1
  simp at this

end Edit

/-- **What an insertion into a live loop does**: the item and its separator are new nodes, the loop
takes them up among its parts, and what was below it stays as it is. -/
theorem Garden.insert_node {change : Change NodeId} (h : Garden t roots) (hvalid : t.grammar.Valid)
    (hrank : t.grammar.Ranked) (hok : t.insert n index text = .ok change) :
    ∃ rule items s, t.loopRule n = .ok rule ∧ t.items n = .ok items ∧ index ≤ items.length ∧
      (s.isSome ↔ rule.separator.isSome ∧ 0 < items.length) ∧ n ∈ idsAll roots ∧
      ∃ t₁ roots' ps ns new, Revised t t₁ change.tree roots roots' n ps change.notices
          (ns ++ [⟨n, (t.node n).content, new, (t.node n).listeners⟩]) ∧
        (∀ m ∈ ns, m.listeners = []) ∧
        change.tree.node n = { t.node n with
          body := insertParts (t.node n).body index change.value s, content := some new } ∧
        new = change.tree.contents (change.tree.node n).body.active ∧
        (∀ c ∈ (t.node n).body.owned, ∀ x, t.Below c x → change.tree.node x = t.node x) ∧
        (change.tree.node change.value).content = some text ∧
        ∀ x ∈ change.value :: Option.toList s, ¬ t.Live x := by
  obtain ⟨rule, items, split, separator, hrule, hitems, hindex, hcount, hresolve, hseparator, item,
    e₁, s, e₂, hitem, hs, rfl⟩ := insert_ok hok
  have hn := live_of_items h.toPlanted hitems
  obtain ⟨b, c, hb, hin, rfl, hc⟩ := h.exists_branch hn
  obtain ⟨n, ps'⟩ := c
  simp only [root_fork] at *
  obtain ⟨ho, howned, hsound⟩ := Opened.of_grove (h.grove_of_inside hb hin hc)
  obtain ⟨hfits, htext⟩ := split_fits hvalid hresolve
  obtain ⟨hsome, hnew⟩ := newSeparator_ok hseparator
  obtain ⟨us, texts, ns, hroots, hmakes, hdef, hisSome, hdef'⟩ :=
    Edit.spawn_spawnSeparator (e := ⟨t, []⟩) hvalid hrank rfl (h.apart.mono (by simp)) hfits
      (fun d w split hw => (split_fits hvalid (hnew d w split hw).2).1) hitem hs
  rw [← hisSome] at hsome
  obtain ⟨hlist, added, hadded, hgrew⟩ :=
    insertParts_grew hsound.formed hrule hitems hindex hsome item
  have hbody : insertParts (e₂.tree.node n).body index item s =
      insertParts (t.node n).body index item s := by
    rw [ho.node_sprout hmakes.regrown]
  simp only [Edit.onTree, hbody, Edit.result]
  generalize hgenerated : insertParts (t.node n).body index item s = body at *
  obtain ⟨hre, hnode, hkept, hfresh⟩ := ho.sprout hmakes.regrown body
  -- the parts of the loop are the old ones, which stay as they are, and the new ones
  have hold : ∀ c ∈ (t.node n).body.owned, ∀ x, t.Below c x → x ∈ idsAll ps' := fun c hc x hx => by
    rw [howned] at hc
    exact ho.grove.below_mem (Grove.root_mem hc) hx
  have hadded' : ∀ x ∈ added, x ∈ us.map Branch.root := fun x hx => by
    rw [hroots]
    rcases hadded with rfl | rfl
    · exact hx
    · simpa [or_comm] using hx
  have hitemus : item ∈ idsAll us := Grove.root_mem (by simp [hroots])
  have hshape : (e₂.tree.setBody n body).shapeOf n = t.shapeOf n := by
    rw [shapeOf, hnode, hre.rework.grammar]
    rfl
  have hformed : (e₂.tree.setBody n body).Formed n := by
    refine insertParts_formed hsound.formed hrule hitems hindex hsome hshape
      (by rw [hnode, hgenerated]) (fun x hx => by rw [hkept x (hold x hx x .refl)]) ?_ ?_
    · rw [hfresh item hitemus]
      exact hdef
    · rintro x d explicit rfl hd
      obtain ⟨⟨d', w, split'⟩, rfl⟩ := Option.isSome_iff_exists.1 (hisSome.symm.trans rfl)
      obtain ⟨⟨explicit', hd'⟩, -⟩ := hnew d' w split' rfl
      have hxus : x ∈ idsAll us := Grove.root_mem (by simp [hroots])
      rw [hfresh x hxus, hdef' d' w split' rfl x rfl]
      rw [hd] at hd'
      cases hd'
      rfl
  have hset : ∀ x ∈ body.active, ((e₂.tree.setBody n body).node x).content.isSome := by
    intro x hx
    rcases hgrew.mem_active.1 hx with hx | hx
    · rw [hkept x (hold x (Body.owned_of_active hx) x .refl)]
      exact hsound.isSome_of_loop hitems hx
    · have hx := hadded' x hx
      rw [hfresh x (Grove.root_mem hx)]
      exact isSome_of_roots hmakes.contents hx
  have howned' : body.owned.Perm ((ps' ++ us).map Branch.root) := by
    refine hgrew.owned.trans ?_
    rw [List.map_append, ← howned, hroots]
    refine (List.Perm.append_right _ ?_).trans List.perm_append_comm
    rcases hadded with rfl | rfl
    · exact .refl _
    · exact List.perm_append_comm
  obtain ⟨t₁, roots', anc, hrevised, hnode', hparts⟩ := h.recompose
    (e := ⟨e₂.tree.setBody n body, e₂.notices⟩) hb hin hc hre (by simp) hnode howned' hformed hset
    (hshape ▸ repetition_of_loopRule hrule) (by
      rw [hlist, List.length_insertIdx_of_le_length hindex]
      exact hcount)
  refine ⟨rule, items, s, hrule, hitems, hindex, hsome, hn, t₁, roots', anc, ns, _, ?_,
    hmakes.unheard, by rw [hnode', hgenerated], ?_, fun c hc x hx => ?_, ?_, fun x hx => ?_⟩
  · simpa [hmakes.notices] using hrevised
  · rw [hnode']
    refine (contents_congr fun x hx => ?_).symm
    rw [hparts x (Grove.root_mem (howned'.subset (Body.owned_of_active hx)))]
  · rw [hparts x (by simp [hold c hc x hx]), hkept x (hold c hc x hx)]
  · rw [hparts item (by simp [hitemus]), hfresh item hitemus]
    have hcontents := hmakes.contents
    cases us with
    | nil => simp at hroots
    | cons u us =>
        simp only [List.map_cons, List.cons.injEq] at hroots hcontents
        rw [← hroots.1, hcontents.1, htext]
  · exact hmakes.regrown.rework.not_live (index_mem_slotsAll (Grove.root_mem (by rwa [hroots])))

/-- **An item of a live loop**: it and its separator are put among the parts of the loop, and the new
content of the loop is carried up. -/
theorem Garden.insert {change : Change NodeId} (h : Garden t roots) (hvalid : t.grammar.Valid)
    (hrank : t.grammar.Ranked) (hok : t.insert n index text = .ok change) :
    n ∈ idsAll roots ∧ ∃ t₁ roots' ps ns new, Revised t t₁ change.tree roots roots' n ps change.notices
        (ns ++ [⟨n, (t.node n).content, new, (t.node n).listeners⟩]) ∧
      (∀ m ∈ ns, m.listeners = []) ∧
      (change.tree.node n).definition = (t.node n).definition ∧
      (change.tree.node n).content = some new ∧
      new = change.tree.contents (change.tree.node n).body.active ∧
      (∀ x ∈ (t.node n).body.owned, change.tree.node x = t.node x) ∧
      (∃ items, t.items n = .ok items ∧ index ≤ items.length ∧
        (change.tree.node n).body.items = items.insertIdx index change.value) ∧
      (change.tree.node change.value).content = some text ∧
      ∃ added separator,
        (added = change.value :: Option.toList separator ∨
          added = Option.toList separator ++ [change.value]) ∧
        (t.node n).body.Grew (change.tree.node n).body added := by
  obtain ⟨rule, items, s, hrule, hitems, hindex, hsome, hn, t₁, roots', ps, ns, new, hrevised, hunheard,
    hnode, hcomposed, hkept, hitem, -⟩ := h.insert_node hvalid hrank hok
  obtain ⟨hlist, added, hadded, hgrew⟩ :=
    insertParts_grew (h.sound n hn).formed hrule hitems hindex hsome change.value
  exact ⟨hn, t₁, roots', ps, ns, new, hrevised, hunheard, by rw [hnode], by rw [hnode], hcomposed,
    fun x hx => hkept x hx x .refl, ⟨items, hitems, hindex, by rw [hnode, hlist]⟩, hitem, added, s,
    hadded, by rwa [hnode]⟩

/-! ### Removed items -/

namespace Tree

/-- What a removal that succeeds found, and what it did. -/
theorem remove_ok {change : Change Unit} (h : t.remove n index = .ok change) :
    ∃ rule items, t.loopRule n = .ok rule ∧ t.items n = .ok items ∧ index < items.length ∧
      rule.repetition.admits (items.length - 1) = true ∧
      change = (Edit.propagateUp n (Edit.recompose
        ⟨(t.setBody n (removeParts (t.node n).body index).1).release
          (removeParts (t.node n).body index).2, []⟩ n)).result () := by
  unfold Tree.remove at h
  obtain ⟨rule, hrule, h⟩ := Except.bind_eq_ok.1 h
  obtain ⟨items, hitems, h⟩ := Except.bind_eq_ok.1 h
  dsimp only at h
  split at h
  · obtain ⟨_, hthrow, _⟩ := Except.bind_eq_ok.1 h
    cases hthrow
  next hindex =>
  obtain ⟨⟨⟩, hcount, h⟩ := Except.bind_eq_ok.1 h
  exact ⟨rule, items, hrule, hitems, Nat.lt_of_not_le hindex, checkCount_ok hcount,
    (Except.ok.inj h).symm⟩

/-- A removal succeeds when all that it looks for is found. -/
theorem remove_of_ok {rule : LoopRule} {items : List NodeId} (hrule : t.loopRule n = .ok rule)
    (hitems : t.items n = .ok items) (hindex : index < items.length)
    (hcount : rule.repetition.admits (items.length - 1) = true) :
    t.remove n index = .ok ((Edit.propagateUp n (Edit.recompose
      ⟨(t.setBody n (removeParts (t.node n).body index).1).release
        (removeParts (t.node n).body index).2, []⟩ n)).result ()) := by
  simp only [Tree.remove, hrule, hitems, checkCount, hcount, if_pos, if_neg (Nat.not_le.2 hindex), bind,
    Except.bind]
  rfl

/-- The parts of a loop before a removal: the item that is taken out, and its separator, were put
among the others. -/
theorem removeParts_grew {rule : LoopRule} {items : List NodeId} (h : t.Formed n)
    (hrule : t.loopRule n = .ok rule) (hitems : t.items n = .ok items)
    (hindex : index < items.length) :
    (removeParts (t.node n).body index).1.items = items.eraseIdx index ∧
      ∃ item separator gone, items[index]? = some item ∧
        (removeParts (t.node n).body index).2 = item :: Option.toList separator ∧
        (gone = item :: Option.toList separator ∨ gone = Option.toList separator ++ [item]) ∧
        (removeParts (t.node n).body index).1.Grew (t.node n).body gone := by
  have hitem : items[index]? = some items[index] := List.getElem?_eq_getElem hindex
  have hback : (items.eraseIdx index).insertIdx index items[index] = items :=
    List.insertIdx_eraseIdx_getElem hindex
  have hlengthItems : (items.eraseIdx index).length = items.length - 1 :=
    List.length_eraseIdx_of_lt hindex
  rcases h.loop_cases hrule hitems with ⟨-, -, hbody, -⟩ |
    ⟨d, explicit, separators, -, -, hbody, -, -, hlength⟩
  · rw [hbody]
    refine ⟨rfl, items[index], none, _, hitem, by simp [removeParts, hitem], .inl rfl, ?_⟩
    have hshorter : index ≤ (items.eraseIdx index).length := by omega
    have hgrew := Body.grew_loop hshorter items[index]
    rwa [hback] at hgrew
  · rw [hbody]
    refine ⟨rfl, ?_⟩
    by_cases hempty : separators.length = 0
    · -- the only item goes without a separator
      obtain rfl : separators = [] := List.length_eq_zero_iff.1 hempty
      obtain ⟨item, rfl⟩ : ∃ item, items = [item] := by
        rw [← List.length_eq_one_iff]
        rw [List.length_nil] at hlength
        omega
      obtain rfl : index = 0 := by simpa using hindex
      exact ⟨item, none, [item], rfl, rfl, .inl rfl, Body.grew_empty item⟩
    · have hj : min index (separators.length - 1) < separators.length := by omega
      generalize hmin : min index (separators.length - 1) = j at hj
      have hseparator : separators[j]? = some separators[j] := List.getElem?_eq_getElem hj
      have hlengthSeparators : (separators.eraseIdx j).length = separators.length - 1 :=
        List.length_eraseIdx_of_lt hj
      have hback' : (separators.eraseIdx j).insertIdx
          (min index (separators.eraseIdx j).length) separators[j] = separators := by
        rw [hlengthSeparators, hmin]
        exact List.insertIdx_eraseIdx_getElem hj
      have hshorter : index ≤ (items.eraseIdx index).length := by omega
      have hrest : (separators.eraseIdx j).length = (items.eraseIdx index).length - 1 := by omega
      obtain ⟨gone, hgone, hgrew⟩ :=
        Body.grew_separated hrest (by omega) hshorter items[index] separators[j]
      rw [hback, hback'] at hgrew
      refine ⟨items[index], some separators[j], gone, hitem, ?_, hgone, ?_⟩
      · simp [removeParts, hmin, hitem, hseparator]
      · simpa [removeParts, hmin] using hgrew

/-- The parts that go and those that stay are the parts of the loop. -/
theorem removeParts_perm {rule : LoopRule} {items : List NodeId} (h : t.Formed n)
    (hrule : t.loopRule n = .ok rule) (hitems : t.items n = .ok items)
    (hindex : index < items.length) :
    ((removeParts (t.node n).body index).2 ++ (removeParts (t.node n).body index).1.owned).Perm
      (t.node n).body.owned := by
  obtain ⟨-, item, separator, gone, -, hremoved, hgone, hgrew⟩ :=
    removeParts_grew h hrule hitems hindex
  refine .trans (.append_right _ ?_) hgrew.owned.symm
  rw [hremoved]
  rcases hgone with rfl | rfl
  · exact .refl _
  · exact (List.perm_append_singleton item separator.toList).symm

/-- A loop has the parts that its rule asks for after a removal. -/
theorem removeParts_formed {rule : LoopRule} {items : List NodeId} (h : t.Formed n)
    (hrule : t.loopRule n = .ok rule) (hitems : t.items n = .ok items)
    (hindex : index < items.length) (hshape : t'.shapeOf n = t.shapeOf n)
    (hbody' : (t'.node n).body = (removeParts (t.node n).body index).1)
    (hkept : ∀ c ∈ (t'.node n).body.owned, (t'.node c).definition = (t.node c).definition) :
    t'.Formed n := by
  rcases h.loop_cases hrule hitems with ⟨hrep, -, hbody, hdefs⟩ |
    ⟨d, explicit, separators, hrep, -, hbody, hdefs, hdefs', hlength⟩
  · rw [hbody] at hbody'
    rw [hbody'] at hkept
    refine (formed_loop_iff (hshape.trans hrep)).2 ⟨_, hbody', fun c hc => ?_⟩
    rw [hkept c hc, hdefs c ((List.eraseIdx_sublist _ _).subset hc)]
  · rw [hbody] at hbody'
    rw [hbody'] at hkept
    refine (formed_separated_iff (hshape.trans hrep)).2
      ⟨_, _, hbody', fun c hc => ?_, fun c hc => ?_, ?_⟩
    · rw [hkept c (List.mem_append_left _ hc), hdefs c ((List.eraseIdx_sublist _ _).subset hc)]
    · rw [hkept c (List.mem_append_right _ hc), hdefs' c ((List.eraseIdx_sublist _ _).subset hc)]
    · rw [List.length_eraseIdx_of_lt hindex, List.length_eraseIdx]
      split
      · omega
      · omega

end Tree

/-- **What a removal from a live loop does**: the loop keeps the parts that stay, and what is below them
stays as it is. -/
theorem Garden.remove_node {change : Change Unit} (h : Garden t roots)
    (hok : t.remove n index = .ok change) :
    ∃ rule items, t.loopRule n = .ok rule ∧ t.items n = .ok items ∧ index < items.length ∧
      n ∈ idsAll roots ∧
      ∃ t₁ roots' ps new, Revised t t₁ change.tree roots roots' n ps change.notices
          [⟨n, (t.node n).content, new, (t.node n).listeners⟩] ∧
        change.tree.node n = { t.node n with
          body := (removeParts (t.node n).body index).1, content := some new } ∧
        new = change.tree.contents (change.tree.node n).body.active ∧
        ∀ c ∈ (removeParts (t.node n).body index).1.owned, ∀ x, t.Below c x →
          change.tree.node x = t.node x := by
  obtain ⟨rule, items, hrule, hitems, hindex, hcount, rfl⟩ := remove_ok hok
  have hn := live_of_items h.toPlanted hitems
  obtain ⟨b, c, hb, hin, rfl, hc⟩ := h.exists_branch hn
  obtain ⟨n, ps'⟩ := c
  simp only [root_fork] at *
  obtain ⟨ho, howned, hsound⟩ := Opened.of_grove (h.grove_of_inside hb hin hc)
  obtain ⟨hlist, item, separator, gone, hitem, -, hgone, hgrew⟩ :=
    removeParts_grew hsound.formed hrule hitems hindex
  have hperm := removeParts_perm hsound.formed hrule hitems hindex
  generalize hgenerated : removeParts (t.node n).body index = parts at *
  obtain ⟨body, removed⟩ := parts
  dsimp only [Edit.result] at hlist hperm hgrew ⊢
  -- the branches of the parts that go, and of those that stay
  obtain ⟨qs, hqs, hqsroots⟩ := Branch.exists_perm_roots (howned ▸ hperm)
  obtain ⟨gs, rs, rfl, rfl, hrs⟩ := List.map_eq_append_iff.1 hqsroots
  have hsplit := ho.perm hqs.symm
  obtain ⟨freed, hre, hfreed, hnode, hkept⟩ := hsplit.prune body
  generalize hpruned : (t.setBody n body).release (gs.map Branch.root) = t₂ at *
  have hstay : ∀ c ∈ body.owned, ∀ x, t.Below c x → x ∈ idsAll rs := fun c hc x hx => by
    rw [← hrs] at hc
    exact hsplit.grove.right.below_mem (Grove.root_mem hc) hx
  have hshape : t₂.shapeOf n = t.shapeOf n := by
    rw [shapeOf, hnode, hre.rework.grammar]
    rfl
  have hformed : t₂.Formed n := by
    refine removeParts_formed hsound.formed hrule hitems hindex hshape (by rw [hnode, hgenerated])
      fun x hx => ?_
    rw [hnode] at hx
    rw [hkept x (hstay x hx x .refl)]
  have hset : ∀ x ∈ body.active, (t₂.node x).content.isSome := by
    intro x hx
    rw [hkept x (hstay x (Body.owned_of_active hx) x .refl)]
    exact hsound.isSome_of_loop hitems (hgrew.mem_active.2 (.inl hx))
  have hle : ∀ i, freed.count i ≤ (slotsAll ps').count i := fun i => by
    rw [hfreed, ← count_slotsAll_perm hqs, count_slotsAll_append]
    omega
  obtain ⟨t₁, roots', anc, hrevised, hnode', hparts⟩ := h.recompose (e := ⟨t₂, []⟩) hb hin hc
    (hre.perm hsplit hqs (.refl _)) hle hnode (.of_eq hrs.symm) hformed hset
    (hshape ▸ repetition_of_loopRule hrule) (by
      rw [hlist, List.length_eraseIdx_of_lt hindex]
      exact hcount)
  refine ⟨rule, items, hrule, hitems, hindex, hn, t₁, roots', anc, _, hrevised, hnode', ?_,
    fun c hc x hx => ?_⟩
  · rw [hnode']
    refine (contents_congr fun x hx => ?_).symm
    rw [hparts x (hstay x (Body.owned_of_active hx) x .refl)]
  · rw [hparts x (hstay c hc x hx), hkept x (hstay c hc x hx)]

/-- **An item is taken out of a live loop**, with a separator next to it, and the new content of the
loop is carried up. -/
theorem Garden.remove {change : Change Unit} (h : Garden t roots)
    (hok : t.remove n index = .ok change) :
    n ∈ idsAll roots ∧ ∃ t₁ roots' ps new, Revised t t₁ change.tree roots roots' n ps change.notices
        [⟨n, (t.node n).content, new, (t.node n).listeners⟩] ∧
      (change.tree.node n).definition = (t.node n).definition ∧
      (change.tree.node n).content = some new ∧
      new = change.tree.contents (change.tree.node n).body.active ∧
      (∀ x ∈ (change.tree.node n).body.owned, change.tree.node x = t.node x) ∧
      ∃ items item separator gone, t.items n = .ok items ∧ items[index]? = some item ∧
        (change.tree.node n).body.items = items.eraseIdx index ∧
        (gone = item :: Option.toList separator ∨ gone = Option.toList separator ++ [item]) ∧
        (change.tree.node n).body.Grew (t.node n).body gone := by
  obtain ⟨rule, items, hrule, hitems, hindex, hn, t₁, roots', ps, new, hrevised, hnode, hcomposed,
    hkept⟩ := h.remove_node hok
  obtain ⟨hlist, item, separator, gone, hitem, -, hgone, hgrew⟩ :=
    removeParts_grew (h.sound n hn).formed hrule hitems hindex
  exact ⟨hn, t₁, roots', ps, new, hrevised, by rw [hnode], by rw [hnode], hcomposed,
    fun x hx => hkept x (by rwa [hnode] at hx) x .refl, items, item, separator, gone, hitems, hitem,
    by rw [hnode, hlist], hgone, by rwa [hnode]⟩

end Tessera
