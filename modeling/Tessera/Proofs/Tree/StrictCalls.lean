/-
**Calls without faults.**

A strict call of a tree that is in order does what the call does: it reports what is wrong with it, or
changes the tree in the same way.  There is one exception.  A free slot keeps the definition of the
node that was there last, but not the parts.  A handle from elsewhere may name it by chance, and a
content that is given to it has a split with parts, which cannot be assigned.

Main definitions:

* `Tessera.Tree.Stray` — the call gives a content to what a node with parts left in a free slot.

Main results:

* `Tessera.Strict.perform_eq` — **a call comes upon no fault**, unless it is stray;
* `Tessera.Strict.perform_stray` — a stray call comes upon one.
-/

import Tessera.Proofs.Tree.Definitions
import Tessera.Proofs.Tree.Staleness
import Tessera.Proofs.Tree.StrictPropagation

set_option autoImplicit false

namespace Tessera

open Branch Tessera.Tree

variable {t t' : Tree} {g : Grammar} {n : NodeId} {d : DefId} {text : Text} {roots : List Branch}
  {e : Edit} {m : Node}

/-! ### Strict calls -/

namespace StrictCall

variable {α β : Type}

/-- What must be there is there. -/
theorem must_bind {o : Option α} {a : α} (h : o = some a) (k : α → StrictCall β) :
    must o >>= k = k a := by
  subst h
  rfl

theorem check_bind {x : Except TreeError α} {a : α} (h : x = .ok a) (k : α → StrictCall β) :
    check x >>= k = k a := by
  subst h
  rfl

/-- One step after another. -/
theorem bind_eq {c : StrictCall α} {x : Except TreeError α} {k : α → StrictCall β}
    {f : α → Except TreeError β} (hc : c = check x) (hk : ∀ a, x = .ok a → k a = check (f a)) :
    c >>= k = check (x >>= f) := by
  subst hc
  cases x with
  | error fault => rfl
  | ok a => exact hk a rfl

theorem map_eq {c : StrictCall α} {x : Except TreeError α} (f : α → β) (hc : c = check x) :
    f <$> c = check (x.map f) := by
  subst hc
  cases x <;> rfl

end StrictCall

/-- The call gives a content to what a node with parts left in a free slot: the handle has the number
and the generation of the slot, and the text belongs to the definition of that node. -/
def Tree.Stray (t : Tree) : Operation → Prop
  | .setContent n text =>
      n.index ∈ t.free ∧ t.lookup? n = some (t.node n) ∧ ¬ (t.shapeOf n).isLeaf = true ∧
        ∃ split, (resolve t.grammar (t.node n).definition text).result = .ok split
  | _ => False

/-- What a call finds behind a handle has a definition of the grammar. -/
theorem Tree.Defined.get (h : t.Defined g) (hget : t.get n = .ok m) :
    m = t.node n ∧ n.index < t.slots.size ∧ (t.node n).definition < g.size := by
  obtain ⟨hsize, -, rfl⟩ := lookup?_eq_some.1 (get_eq_ok.1 hget)
  exact ⟨rfl, hsize, h.lt _ hsize⟩

/-- A node that was edited is among the nodes afterwards. -/
theorem Revised.mem {t₁ : Tree} {roots' : List Branch} {ps : List NodeId} {notices ns : List Notice}
    (h : Revised t t₁ t' roots roots' n ps notices ns) : n ∈ idsAll roots' := by
  obtain ⟨c, c', freed, rfl, hedited⟩ := h.edited
  exact (hedited.mem_iff _).2 (.inl (hedited.root ▸ c'.root_mem_ids))

namespace Strict

open StrictCall

variable (h : Garden t roots) (hdefined : t.Defined t.grammar) (hg : t.grammar.Tabled)
  (hrank : t.grammar.Ranked)

/-! ### New nodes and new contents -/

include hg in
theorem splitOf_eq (hd : d < t.grammar.size) (text : Text) :
    splitOf t.grammar d text = check (Tessera.resolve t.grammar d text).split := by
  rw [splitOf, resolve_eq hg hd]
  rfl

include h hg hrank in
theorem create_eq (d : DefId) : create t d = check (t.create d) := by
  unfold create Tree.create
  split
  · next hcontains =>
      rw [allocFilled_eq hg hrank (h.apart.mono (by simp)) (by simpa [Grammar.contains] using hcontains)]
      rfl
  · rfl

include h hdefined hg hrank in
/-- The split of a text is assigned to a live node and carried up without a fault. -/
theorem setContent_live (hn : n ∈ idsAll roots) {split : Split}
    (hsplit : (Tessera.resolve t.grammar (t.node n).definition text).result = .ok split) :
    assign text split n ⟨t, []⟩ = some (Edit.assign text split n ⟨t, []⟩) ∧
      propagateUp n (Edit.assign text split n ⟨t, []⟩) =
        some (Edit.propagateUp n (Edit.assign text split n ⟨t, []⟩)) := by
  have hlookup := lookup?_of_live (h.live_iff.2 hn)
  obtain ⟨t₁, roots', ps, ns, hrevised, -⟩ :=
    h.setContent hg.toValid hrank hn (setContent_of_split hlookup hsplit)
  refine ⟨?_, propagateUp_eq hrevised.garden.1.trellis hrevised.mem⟩
  obtain ⟨b, c, hb, hin, rfl, hc⟩ := h.exists_branch hn
  have hsize := h.trellis.lt_size hn
  exact assign_eq hg hrank split ⟨t, []⟩ _ c rfl (h.grove_of_inside hb hin hc)
    (hdefined.lt _ hsize) (split_fits hg.toValid hsplit).1

include h hdefined hg in
/-- The text of a leaf is stored in a free slot without a fault. -/
theorem setContent_vacant (hfree : n.index ∈ t.free) (hleaf : (t.shapeOf n).isLeaf = true)
    {split : Split}
    (hsplit : (Tessera.resolve t.grammar (t.node n).definition text).result = .ok split) :
    assign text split n ⟨t, []⟩ = some (Edit.assign text split n ⟨t, []⟩) ∧
      propagateUp n (Edit.assign text split n ⟨t, []⟩) =
        some (Edit.propagateUp n (Edit.assign text split n ⟨t, []⟩)) := by
  have hvacant : (t.node n).Vacant := h.vacant _ hfree
  have hsize : n.index < t.slots.size := h.apart.free_lt_size hfree
  have hfits := (split_fits hg.toValid hsplit).1
  cases split with
  | leaf span =>
      refine ⟨assign_of_body hg rfl hsize (hdefined.lt _ hsize) hvacant.body hfits, ?_⟩
      obtain ⟨hr, -⟩ := store_retold (e := ⟨t, []⟩) hsize (slice text span.start span.stop)
      rw [Edit.assign]
      exact propagateUp_of_parent (hr.size ▸ hsize) ((hr.stays n.index).parent.trans hvacant.parent)
  | _ =>
      rw [Split.Fits] at hfits
      rw [shapeOf] at hleaf
      grind [Rule.isLeaf]

include h hdefined hg hrank in
theorem setContent_eq (text : Text) (hstray : ¬ t.Stray (.setContent n text)) :
    setContent t n text = check (t.setContent n text).result := by
  unfold setContent Tree.setContent
  cases hget : t.get n with
  | error fault => rfl
  | ok node =>
      obtain ⟨rfl, hsize, hd⟩ := hdefined.get hget
      have hlookup := get_eq_ok.1 hget
      change (splitOf t.grammar (t.node n).definition text >>= _) = _
      rw [splitOf_eq hg hd]
      dsimp only
      cases hsplit : (Tessera.resolve t.grammar (t.node n).definition text).split with
      | error fault => rfl
      | ok split =>
          have hsplit := Outcome.split_eq_ok.1 hsplit
          change (must (assign text split n ⟨t, []⟩) >>= _) = _
          rcases h.live_or_vacant hlookup with hn | ⟨hfree, -⟩
          · obtain ⟨hassign, hup⟩ := setContent_live h hdefined hg hrank hn hsplit
            rw [must_bind hassign, hup]
            rfl
          · have hleaf : (t.shapeOf n).isLeaf = true := by
              by_contra hleaf
              exact hstray ⟨hfree, hlookup, hleaf, split, hsplit⟩
            obtain ⟨hassign, hup⟩ := setContent_vacant h hdefined hg hfree hleaf hsplit
            rw [must_bind hassign, hup]
            rfl

/-! ### Items of loops -/

include hdefined hg in
theorem loopRule_eq : loopRule t n = check (t.loopRule n) := by
  unfold loopRule
  cases hget : t.get n with
  | error fault => rw [Tree.loopRule, hget]; rfl
  | ok node =>
      obtain ⟨rfl, -, hd⟩ := hdefined.get hget
      change (must (shape t.grammar (t.node n).definition) >>= _) = _
      rw [shape_eq hg hd]
      rfl

/-- What a loop repeats has a definition of the grammar. -/
theorem item_lt {rule : LoopRule} (hdefined : t.Defined t.grammar) (hg : t.grammar.Tabled)
    (hrule : t.loopRule n = .ok rule) : rule.item < t.grammar.size := by
  rcases loopRule_ok hrule with ⟨hshape, -⟩ | ⟨d, explicit, hshape, -⟩
  · exact hdefined.reference hg.toValid (by rw [hshape]; exact List.mem_cons_self)
  · exact hdefined.reference hg.toValid (by rw [hshape]; exact List.mem_cons_self)

/-- So has the separator. -/
theorem separator_lt {rule : LoopRule} {explicit : Option Text} (hdefined : t.Defined t.grammar)
    (hg : t.grammar.Tabled) (hrule : t.loopRule n = .ok rule)
    (hseparator : rule.separator = some (d, explicit)) : d < t.grammar.size := by
  rcases loopRule_ok hrule with ⟨-, hnone⟩ | ⟨d', explicit', hshape, hsome⟩
  · rw [hnone] at hseparator
    cases hseparator
  · rw [hsome] at hseparator
    cases hseparator
    exact hdefined.reference hg.toValid
      (by rw [hshape]; exact List.mem_cons_of_mem _ List.mem_cons_self)

include hg in
theorem newSeparator_eq {rule : LoopRule} (len : Nat)
    (hlt : ∀ d explicit, rule.separator = some (d, explicit) → d < t.grammar.size) :
    newSeparator t n rule len = check (t.newSeparator n rule len) := by
  unfold newSeparator Tree.newSeparator
  cases hseparator : rule.separator with
  | none => rfl
  | some separator =>
      obtain ⟨d, explicit⟩ := separator
      have hd := hlt d explicit hseparator
      dsimp only
      split
      · rw [must_bind (defaultContent_eq hg hd)]
        exact bind_eq rfl fun w _ => bind_eq (splitOf_eq hg hd w) fun split _ => rfl
      · rfl

/-- The parts of a loop after an insertion no further than behind its last item. -/
theorem insertParts_eq {rule : LoopRule} {items : List NodeId} {index : Nat} (hformed : t.Formed n)
    (hrule : t.loopRule n = .ok rule) (hitems : t.items n = .ok items)
    (hindex : index ≤ items.length) (item : NodeId) (separator : Option NodeId) :
    insertParts (t.node n).body index item separator =
      some (Tree.insertParts (t.node n).body index item separator) := by
  rcases hformed.loop_cases hrule hitems with ⟨-, -, hbody, -⟩ | ⟨d, explicit, separators, -, -, hbody, -⟩
  · rw [hbody]
    exact if_pos hindex
  · rw [hbody]
    exact if_pos hindex

include h hdefined hg hrank in
theorem spawnSeparator_eq {rule : LoopRule} {split : Split} {item : NodeId} {e₁ : Edit} {len : Nat}
    {separator : Option (DefId × Text × Split)} (hrule : t.loopRule n = .ok rule)
    (hsplit : (Tessera.resolve t.grammar rule.item text).result = .ok split)
    (hseparator : t.newSeparator n rule len = .ok separator)
    (hitem : Edit.spawn text split rule.item n ⟨t, []⟩ = (item, e₁)) :
    spawnSeparator n e₁ separator = some (Edit.spawnSeparator separator n e₁) := by
  cases separator with
  | none => rfl
  | some separator =>
      obtain ⟨d, w, split'⟩ := separator
      obtain ⟨u, ns, -, hmakes, -⟩ := Edit.spawn_makes hg.toValid hrank (e := ⟨t, []⟩) rfl
        (h.apart.mono (by simp)) (split_fits hg.toValid hsplit).1 hitem
      obtain ⟨⟨explicit, hd⟩, hsplit'⟩ := (newSeparator_ok hseparator).2 d w split' rfl
      have hspawn := spawn_eq hg hrank hmakes.regrown.rework.grammar
        (hmakes.regrown.grove.apart.mono (by simp)) (separator_lt hdefined hg hrule hd)
        (split_fits hg.toValid hsplit').1 n
      rw [spawnSeparator, hspawn]
      rfl

/-- The content of a loop is composed anew and carried up without a fault, when the tree is in order
afterwards. -/
theorem finish_eq (h : Trellis (Edit.propagateUp n (e.recompose n)).tree roots)
    (hn : n ∈ idsAll roots) : n.index < e.tree.slots.size ∧ recompose e n = some (e.recompose n) ∧
      propagateUp n (e.recompose n) = some (Edit.propagateUp n (e.recompose n)) := by
  have hbefore : Trellis e.tree roots := h.of_propagateUp.of_store
  exact ⟨hbefore.lt_size hn, recompose_eq hbefore hn, propagateUp_eq h hn⟩

/-- An insertion succeeds when all that it looks for is found. -/
theorem insert_of_ok {index : Nat} {rule : LoopRule} {items : List NodeId} {split : Split}
    {separator : Option (DefId × Text × Split)} {item : NodeId} {s : Option NodeId} {e₁ e₂ e₃ : Edit}
    (hrule : t.loopRule n = .ok rule) (hitems : t.items n = .ok items)
    (hindex : ¬ items.length < index)
    (hcount : checkCount n rule.repetition (items.length + 1) = .ok ())
    (hsplit : (Tessera.resolve t.grammar rule.item text).split = .ok split)
    (hseparator : t.newSeparator n rule items.length = .ok separator)
    (hitem : Edit.spawn text split rule.item n ⟨t, []⟩ = (item, e₁))
    (hs : Edit.spawnSeparator separator n e₁ = (s, e₂))
    (he₃ : e₃ = e₂.onTree fun t => t.setBody n (Tree.insertParts (t.node n).body index item s)) :
    t.insert n index text = .ok ((Edit.propagateUp n (e₃.recompose n)).result item) := by
  obtain ⟨rfl, rfl⟩ := Prod.ext_iff.1 hitem.symm
  obtain ⟨rfl, rfl⟩ := Prod.ext_iff.1 hs.symm
  subst he₃
  simp only [Tree.insert, hrule, hitems, hcount, hsplit, hseparator, if_neg hindex, bind, Except.bind]
  rfl

include h hg hrank in
/-- A new item and its separator are put among the parts of a loop, and the change is carried up, all
without a fault. -/
theorem insert_steps {index : Nat} {rule : LoopRule} {items : List NodeId} {split : Split}
    {separator : Option (DefId × Text × Split)} {item : NodeId} {s : Option NodeId} {e₁ e₂ e₃ : Edit}
    (hrule : t.loopRule n = .ok rule) (hitems : t.items n = .ok items)
    (hindex : index ≤ items.length)
    (hsplit : (Tessera.resolve t.grammar rule.item text).result = .ok split)
    (hseparator : t.newSeparator n rule items.length = .ok separator)
    (hitem : Edit.spawn text split rule.item n ⟨t, []⟩ = (item, e₁))
    (hs : Edit.spawnSeparator separator n e₁ = (s, e₂))
    (he₃ : e₃ = e₂.onTree fun t => t.setBody n (Tree.insertParts (t.node n).body index item s))
    (hok : t.insert n index text = .ok ((Edit.propagateUp n (e₃.recompose n)).result item)) :
    node e₂.tree n = some (e₂.tree.node n) ∧
      insertParts (e₂.tree.node n).body index item s =
        some (Tree.insertParts (e₂.tree.node n).body index item s) ∧
      onTree e₂ (fun t => setBody t n (Tree.insertParts (e₂.tree.node n).body index item s)) = some e₃ ∧
      recompose e₃ n = some (e₃.recompose n) ∧
      propagateUp n (e₃.recompose n) = some (Edit.propagateUp n (e₃.recompose n)) := by
  obtain ⟨hn, t₁, roots', ps, ns, new, hrevised, -⟩ := h.insert hg.toValid hrank hok
  obtain ⟨hsize, hrecompose, hup⟩ := finish_eq hrevised.garden.1.trellis hrevised.mem
  have hsize : n.index < e₂.tree.slots.size := by
    rw [he₃] at hsize
    rwa [← size_setBody]
  -- the loop itself is the same as before the new branches were made
  obtain ⟨b, c, hb, hin, rfl, hc⟩ := h.exists_branch hn
  obtain ⟨n, parts⟩ := c
  rw [root_fork] at *
  obtain ⟨ho, -, hsound⟩ := Opened.of_grove (h.grove_of_inside hb hin hc)
  obtain ⟨us, texts, ns, -, hmakes, -⟩ := Edit.spawn_spawnSeparator (e := ⟨t, []⟩) hg.toValid hrank rfl
    (h.apart.mono (by simp)) (split_fits hg.toValid hsplit).1
    (fun d w split hw => (split_fits hg.toValid ((newSeparator_ok hseparator).2 d w split hw).2).1)
    hitem hs
  have hbody : (e₂.tree.node n).body = (t.node n).body := by
    rw [ho.node_sprout hmakes.regrown]
  refine ⟨node_eq hsize, ?_, ?_, hrecompose, hup⟩
  · rw [hbody]
    exact insertParts_eq hsound.formed hrule hitems hindex item s
  · rw [onTree_setBody_eq hsize, he₃]
    rfl

include h hdefined hg hrank in
theorem insert_eq (index : Nat) (text : Text) :
    insert t n index text = check (t.insert n index text) := by
  unfold insert Tree.insert
  refine bind_eq (loopRule_eq hdefined hg) fun rule hrule => bind_eq rfl fun items hitems => ?_
  dsimp only
  by_cases hindex : items.length < index
  · rw [if_pos hindex, if_pos hindex]
    rfl
  rw [if_neg hindex, if_neg hindex, check_bind rfl]
  refine bind_eq rfl fun _ hcount => bind_eq (splitOf_eq hg (item_lt hdefined hg hrule) text)
    fun split hsplit => bind_eq (newSeparator_eq hg _ fun d explicit =>
      separator_lt hdefined hg hrule) fun separator hseparator => ?_
  rcases hitem : Edit.spawn text split rule.item n ⟨t, []⟩ with ⟨item, e₁⟩
  rcases hs : Edit.spawnSeparator separator n e₁ with ⟨s, e₂⟩
  obtain ⟨e₃, he₃⟩ : ∃ e₃, e₃ =
    e₂.onTree fun t => t.setBody n (Tree.insertParts (t.node n).body index item s) := ⟨_, rfl⟩
  have hok := insert_of_ok hrule hitems hindex hcount hsplit hseparator hitem hs he₃
  have hsplit := Outcome.split_eq_ok.1 hsplit
  have hspawn := spawn_eq hg hrank (e := ⟨t, []⟩) rfl (h.apart.mono (by simp))
    (item_lt hdefined hg hrule) (split_fits hg.toValid hsplit).1 n
  have hspawn' := spawnSeparator_eq h hdefined hg hrank hrule hsplit hseparator hitem
  obtain ⟨hnode, hparts, hbody, hrecompose, hup⟩ := insert_steps h hg hrank hrule hitems
    (Nat.le_of_not_lt hindex) hsplit hseparator hitem hs he₃ hok
  rw [must_bind hspawn, hitem, must_bind hspawn', hs, must_bind hnode, must_bind hparts,
    must_bind hbody, must_bind hrecompose, must_bind hup]
  obtain ⟨rfl, rfl⟩ := Prod.ext_iff.1 hitem.symm
  obtain ⟨rfl, rfl⟩ := Prod.ext_iff.1 hs.symm
  rw [he₃]
  rfl

include h hdefined hg hrank in
theorem push_eq (text : Text) : push t n text = check (t.push n text) := by
  unfold push Tree.push
  exact bind_eq rfl fun items _ => insert_eq h hdefined hg hrank items.length text

/-- The parts of a loop after the removal of one of its items. -/
theorem removeParts_eq {rule : LoopRule} {items : List NodeId} {index : Nat} (hformed : t.Formed n)
    (hrule : t.loopRule n = .ok rule) (hitems : t.items n = .ok items)
    (hindex : index < items.length) :
    removeParts (t.node n).body index = some (Tree.removeParts (t.node n).body index) := by
  have hitem : items[index]? = some items[index] := List.getElem?_eq_getElem hindex
  rcases hformed.loop_cases hrule hitems with ⟨-, -, hbody, -⟩ |
    ⟨d, explicit, separators, -, -, hbody, -, -, hlength⟩
  · simp [hbody, removeParts, Tree.removeParts, hitem]
  · rw [hbody]
    simp only [removeParts, Tree.removeParts, hitem, Option.bind_eq_bind, Option.bind_some]
    cases hempty : separators.isEmpty with
    | true =>
        obtain rfl := List.isEmpty_iff.1 hempty
        simp
    | false =>
        have hpos : 1 ≤ separators.length := by
          rw [Nat.one_le_iff_ne_zero, ne_eq, List.length_eq_zero_iff, ← List.isEmpty_iff, hempty]
          simp
        have hlast : min index (separators.length - 1) < separators.length := by omega
        simp [minus_eq hpos, List.getElem?_eq_getElem hlast]

include h in
/-- An item and its separator are taken out of a live loop and released without a fault. -/
theorem release_removed {index : Nat} {rule : LoopRule} {items : List NodeId} (hn : n ∈ idsAll roots)
    (hrule : t.loopRule n = .ok rule) (hitems : t.items n = .ok items)
    (hindex : index < items.length) {parts : Body × List NodeId}
    (hparts : parts = Tree.removeParts (t.node n).body index) :
    release (t.setBody n parts.1) parts.2 = some ((t.setBody n parts.1).release parts.2) := by
  obtain ⟨b, c, hb, hin, rfl, hc⟩ := h.exists_branch hn
  obtain ⟨n, ps⟩ := c
  rw [root_fork] at *
  obtain ⟨ho, howned, hsound⟩ := Opened.of_grove (h.grove_of_inside hb hin hc)
  have hperm := removeParts_perm hsound.formed hrule hitems hindex
  rw [← hparts] at hperm
  obtain ⟨qs, hqs, hroots⟩ := Branch.exists_perm_roots (howned ▸ hperm)
  obtain ⟨gs, rs, rfl, hgs, -⟩ := List.map_eq_append_iff.1 hroots
  rw [← hgs]
  exact release_eq ((ho.perm hqs.symm).setBody parts.1).1.opened.grove.left

include h hdefined hg in
theorem remove_eq (index : Nat) : remove t n index = check (t.remove n index) := by
  unfold remove Tree.remove
  refine bind_eq (loopRule_eq hdefined hg) fun rule hrule => bind_eq rfl fun items hitems => ?_
  dsimp only
  by_cases hindex : items.length ≤ index
  · rw [if_pos hindex, if_pos hindex]
    rfl
  have hlt := Nat.lt_of_not_le hindex
  rw [if_neg hindex, if_neg hindex, check_bind rfl, must_bind (minus_eq (by omega))]
  refine bind_eq rfl fun _ hcount => ?_
  obtain ⟨hn, t₁, roots', ps, new, hrevised, -⟩ :=
    h.remove (remove_of_ok hrule hitems hlt (checkCount_ok hcount))
  have hsize := h.trellis.lt_size hn
  obtain ⟨-, hrecompose, hup⟩ := finish_eq hrevised.garden.1.trellis hrevised.mem
  rw [must_bind (node_eq hsize), must_bind (removeParts_eq (h.sound n hn).formed hrule hitems hlt),
    must_bind (setBody_eq hsize _), must_bind (release_removed h hn hrule hitems hlt rfl),
    must_bind hrecompose, must_bind hup]
  rfl

/-! ### Nodes that are made on first use -/

include h hg hrank in
/-- A node that is made on first use leaves the one above it as it is. -/
theorem allocFilled_above (hn : n ∈ idsAll roots) (hd : d < t.grammar.size) :
    ∃ created t₂, t.allocFilled (some n) d = (created, t₂) ∧
      allocFilled (some n) d t = some (created, t₂) ∧ n.index < t₂.slots.size ∧
      t₂.node n = t.node n := by
  rcases halloc : t.allocFilled (some n) d with ⟨created, t₂⟩
  have hap : t.Apart [] := h.apart.mono (by simp)
  obtain ⟨u, freed, hu⟩ := allocFilled_sprouted hg.toValid hrank hap d halloc
  obtain ⟨b, c, hb, hin, rfl, hc⟩ := h.exists_branch hn
  obtain ⟨n, ps⟩ := c
  rw [root_fork] at *
  obtain ⟨ho, -⟩ := Opened.of_grove (h.grove_of_inside hb hin hc)
  refine ⟨created, t₂, rfl, ?_, ?_, ho.node_sprout hu.regrown⟩
  · rw [allocFilled_eq hg hrank hap hd, halloc]
  · exact Nat.lt_of_lt_of_le ho.size hu.regrown.rework.size_le

/-- The definition of an alternative is found where the node of one has its place. -/
theorem alternativeDef_eq {alternatives : List (Option NodeId)} {current : Option Nat} {index : Nat}
    (hg : t.grammar.Tabled) (hformed : t.Formed n) (hsize : n.index < t.slots.size)
    (hd : (t.node n).definition < t.grammar.size)
    (hbody : (t.node n).body = .choice alternatives current) (hindex : index < alternatives.length) :
    alternativeDef t n index = some (Edit.alternativeDef t n index) := by
  obtain ⟨defs, hshape, hlength, -⟩ := hformed.shape_choice hbody
  have hdef : defs[index]? = some defs[index] := List.getElem?_eq_getElem (hlength ▸ hindex)
  rw [alternativeDef, Edit.alternativeDef, node_eq hsize, hshape]
  rw [shapeOf] at hshape
  simp only [Option.bind_eq_bind, Option.bind_some, shape_eq hg hd, hshape,
    List.getD_eq_getElem?_getD, hdef, Option.getD_some]

include h in
/-- Whoever has parts is live. -/
theorem mem_of_body (hget : t.get n = .ok m) {body : Body} (hbody : (t.node n).body = body)
    (hparts : body ≠ .leaf) : n ∈ idsAll roots := by
  obtain ⟨hlookup, -⟩ := lookup?_of_get hget
  rcases h.live_or_vacant hlookup with hn | ⟨-, hvacant⟩
  · exact hn
  · exact absurd (hbody.symm.trans hvacant.body) hparts

include h hdefined hg hrank in
theorem alternative_eq (index : Nat) : alternative t n index = check (t.alternative n index) := by
  unfold alternative Tree.alternative
  refine bind_eq rfl fun m hget => ?_
  obtain ⟨rfl, hsize, hdef⟩ := hdefined.get hget
  cases hbody : (t.node n).body with
  | choice alternatives current =>
      have hn := mem_of_body h hget hbody (by simp)
      dsimp only
      cases hplace : alternatives[index]? with
      | none => rfl
      | some place =>
          cases place with
          | some existing => rfl
          | none =>
              have hindex := (List.getElem?_eq_some_iff.1 hplace).1
              have hd := hdefined.alternativeDef hg.toValid (hdefined.size_pos hbody (by simp)) n index
              obtain ⟨created, t₂, halloc, halloc', hsize₂, hsame⟩ :=
                allocFilled_above h hg hrank hn hd
              have hkeep : keepAlternative t₂ n index created =
                  some (t₂.setBody n (.choice (alternatives.set index (some created)) current)) := by
                rw [keepAlternative, node_eq hsize₂, hsame]
                simp only [Option.bind_eq_bind, Option.bind_some, hbody, if_pos hindex,
                  setBody_eq hsize₂]
              rw [must_bind (alternativeDef_eq hg (h.sound n hn).formed hsize hdef hbody hindex),
                must_bind halloc', halloc]
              dsimp only
              rw [hkeep]
              rfl
  | _ => rfl

include h hdefined hg hrank in
theorem alternativeOf_eq (d : DefId) : alternativeOf t n d = check (t.alternativeOf n d) := by
  unfold alternativeOf Tree.alternativeOf
  refine bind_eq rfl fun m hget => ?_
  obtain ⟨rfl, hsize, hdef⟩ := hdefined.get hget
  cases hbody : (t.node n).body with
  | choice alternatives current =>
      have hn := mem_of_body h hget hbody (by simp)
      obtain ⟨defs, hshape, -⟩ := (h.sound n hn).formed.shape_choice hbody
      have hdefs : alternativeDefs t n = some defs := by
        rw [shapeOf] at hshape
        rw [alternativeDefs, node_eq hsize]
        simp only [Option.bind_eq_bind, Option.bind_some, shape_eq hg hdef, hshape]
        rfl
      rw [must_bind hdefs, hshape]
      dsimp only
      cases defs.findIdx? (· == d) with
      | none => rfl
      | some index => exact alternative_eq h hdefined hg hrank index
  | _ => rfl

include h hdefined hg hrank in
theorem optionalChild_eq : optionalChild t n = check (t.optionalChild n) := by
  unfold optionalChild Tree.optionalChild
  refine bind_eq rfl fun m hget => ?_
  obtain ⟨rfl, hsize, hdef⟩ := hdefined.get hget
  cases hbody : (t.node n).body with
  | optional child present =>
      cases child with
      | some existing => rfl
      | none =>
          have hn := mem_of_body h hget hbody (by simp)
          obtain ⟨item, quantifier, hshape⟩ := (h.sound n hn).formed.shape_optional hbody
          have hd := hdefined.itemDef hg.toValid (hdefined.size_pos hbody (by simp)) n
          obtain ⟨created, t₂, halloc, halloc', hsize₂, hsame⟩ := allocFilled_above h hg hrank hn hd
          have hitem : optionalDef t n = some (Edit.itemDef t n) := by
            rw [optionalDef, Edit.itemDef, node_eq hsize, hshape]
            rw [shapeOf] at hshape
            simp only [Option.bind_eq_bind, Option.bind_some, shape_eq hg hdef, hshape]
            rfl
          have hkeep : keepOptional t₂ n created =
              some (t₂.setBody n (.optional (some created) present)) := by
            rw [keepOptional, node_eq hsize₂, hsame]
            simp only [Option.bind_eq_bind, Option.bind_some, hbody, setBody_eq hsize₂]
          dsimp only
          rw [must_bind hitem, must_bind halloc', halloc]
          dsimp only
          rw [hkeep]
          rfl
  | _ => rfl

/-! ### All calls -/

include h hdefined hg hrank in
/-- **A call comes upon no fault**, unless it is stray. -/
theorem perform_eq {op : Operation} (hstray : ¬ t.Stray op) :
    perform t op = check (t.perform op) := by
  cases op with
  | create d => exact map_eq _ (create_eq h hg hrank d)
  | setContent n text => exact map_eq _ (setContent_eq h hdefined hg hrank text hstray)
  | insert n index text => exact map_eq _ (insert_eq h hdefined hg hrank index text)
  | push n text => exact map_eq _ (push_eq h hdefined hg hrank text)
  | remove n index => exact map_eq _ (remove_eq h hdefined hg index)
  | alternative n index => exact map_eq _ (alternative_eq h hdefined hg hrank index)
  | alternativeOf n d => exact map_eq _ (alternativeOf_eq h hdefined hg hrank d)
  | optionalChild n => exact map_eq _ (optionalChild_eq h hdefined hg hrank)
  | addListener n => rfl
  | removeListener n l => rfl

/-- What is left in a free slot has no parts that a split could be assigned to. -/
theorem assign_vacant (hg : g.Tabled) {split : Split} (ht : e.tree.grammar = g)
    (hsize : n.index < e.tree.slots.size) (hd : (e.tree.node n).definition < g.size)
    (hbody : (e.tree.node n).body = .leaf) (hleaf : ¬ (g.shape (e.tree.node n).definition).isLeaf = true)
    (hfits : split.Fits g text (e.tree.node n).definition) : assign text split n e = none := by
  have hnode := node_eq hsize
  have hshape := shape_eq hg hd
  rw [← ht] at hshape
  cases split with
  | leaf span =>
      rw [Split.Fits] at hfits
      exact absurd (isLeaf_of_leafFits hfits.2) hleaf
  | _ =>
      rw [assign, hnode]
      simp only [Option.bind_eq_bind, Option.bind_some, hshape, hbody]

include h hdefined hg in
/-- **A stray call comes upon a fault.** -/
theorem perform_stray (hstray : t.Stray (.setContent n text)) :
    perform t (.setContent n text) = must none := by
  obtain ⟨hfree, hlookup, hleaf, split, hsplit⟩ := hstray
  have hsize : n.index < t.slots.size := h.apart.free_lt_size hfree
  have hd : (t.node n).definition < t.grammar.size := hdefined.lt _ hsize
  have hassign := assign_vacant hg (e := ⟨t, []⟩) rfl hsize hd (h.vacant _ hfree).body hleaf
    (split_fits hg.toValid hsplit).1
  have hset : setContent t n text = must none := by
    rw [setContent, check_bind (get_eq_ok.2 hlookup), splitOf_eq hg hd,
      check_bind (Outcome.split_eq_ok.2 hsplit), hassign]
    rfl
  rw [perform, hset]
  rfl

end Strict

end Tessera
