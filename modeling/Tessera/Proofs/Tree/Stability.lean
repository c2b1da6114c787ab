/-
**Handles that stay.**

A node that was made for a part stays the node of that part.  The children of a sequence never change,
and the node of an alternative or of an optional part, once there is one, is answered with again and
again: through new contents, through other alternatives taking its place, while the part is absent,
and when it comes back.  It is released only together with the node that it belongs to.  All that is
ever released are elements of loops with what is below them, so nothing releases a created node.

Main definitions:

* `Tessera.Tree.Element` — an item or a separator of a loop;
* `Tessera.Tree.Holds` — a node was made for a part;
* `Tessera.Tree.Recalls` — what is made once is answered with from then on;
* `Tessera.Tree.Steady` — what a node keeps as long as it is not released.

Main results:

* `Tessera.Planted.sheltered_holds`, `sheltered_root`, `sheltered_elements` — the shelters of a node
  with its parts, of a created node, and of all nodes but the elements of loops;
* `Tessera.Tree.Guarded.steady` — **a node that is not released keeps its parts**;
* `Tessera.Session.stable_run` — **handles are stable in every run.**
-/

import Tessera.Proofs.Tree.Presence
import Tessera.Proofs.Tree.Shelters

set_option autoImplicit false

namespace Tessera

open Branch Tessera.Tree

variable {t t' : Tree} {n c x e : NodeId} {g : Grammar} {s : Session} {roots : List Branch}
  {d : DefId} {index : Nat} {log : List NodeId} {W : Shelter}

/-! ### Calls that change nothing -/

namespace Tree

/-- The handle is an item or a separator of a loop. -/
def Element (t : Tree) (e : NodeId) : Prop :=
  ∃ p ids, (t.items p = .ok ids ∨ t.separators p = .ok ids) ∧ e ∈ ids

/-- A node was made for a part: it is a child of a sequence, or a call for it answers with it and
changes nothing. -/
inductive Holds (t : Tree) (n c : NodeId) : Prop
  | child (children : List NodeId) (h : t.sequenceChildren n = .ok children) (hc : c ∈ children)
  | alternative (index : Nat) (h : t.alternative n index = .ok ⟨c, t, []⟩)
  | optionalChild (h : t.optionalChild n = .ok ⟨c, t, []⟩)

/-- The children of a sequence are its parts. -/
theorem sequenceChildren_eq_ok {children : List NodeId} : t.sequenceChildren n = .ok children ↔
    t.lookup? n = some (t.node n) ∧ (t.node n).body = .sequence children := by
  constructor
  · intro h
    obtain ⟨node, hget, h⟩ := Except.bind_eq_ok.1 h
    obtain ⟨hlookup, rfl⟩ := lookup?_of_get hget
    split at h
    · next hbody => exact ⟨hlookup, Except.ok.inj h ▸ hbody⟩
    · cases h
  · rintro ⟨hlookup, hbody⟩
    rw [sequenceChildren, get_eq_ok.2 hlookup]
    simp [bind, Except.bind, hbody]

/-- A call for an alternative changes nothing when the alternative was made before. -/
theorem alternative_eq_same : t.alternative n index = .ok ⟨c, t, []⟩ ↔
    t.lookup? n = some (t.node n) ∧ ∃ alternatives current,
      (t.node n).body = .choice alternatives current ∧ alternatives[index]? = some (some c) := by
  constructor
  · intro h
    obtain ⟨alternatives, current, hlookup, hbody, hcase⟩ := alternative_ok h
    refine ⟨hlookup, alternatives, current, hbody, ?_⟩
    rcases hcase with ⟨existing, hexisting, heq⟩ | ⟨hnone, created, t₂, -, heq⟩
    · rwa [(Change.mk.inj heq).1]
    · -- a new node stands among the alternatives afterwards, so something has changed
      exfalso
      have htree := (Change.mk.inj heq).2.1
      have hsize : n.index < t₂.slots.size := by
        rw [← size_modify t₂ n fun m => { m with
          body := .choice (alternatives.set index (some created)) current }]
        exact (congrArg (fun t : Tree => t.slots.size) htree) ▸ (lookup?_eq_some.1 hlookup).1
      have hnode : (t.node n).body = .choice (alternatives.set index (some created)) current := by
        rw [htree, node_eq_slot, Tree.setBody, slot_modify_self hsize]
      rw [hbody] at hnode
      have hset : (alternatives.set index (some created))[index]? = some (some created) :=
        List.getElem?_set_self (List.getElem?_eq_some_iff.1 hnone).1
      rw [← (Body.choice.inj hnode).1, hnone] at hset
      cases hset
  · rintro ⟨hlookup, alternatives, current, hbody, hc⟩
    rw [Tree.alternative, get_eq_ok.2 hlookup]
    simp [bind, Except.bind, hbody, hc]

/-- A call for the node of an optional part changes nothing when the node was made before. -/
theorem optionalChild_eq_same : t.optionalChild n = .ok ⟨c, t, []⟩ ↔
    t.lookup? n = some (t.node n) ∧ ∃ present, (t.node n).body = .optional (some c) present := by
  constructor
  · intro h
    obtain ⟨present, hlookup, ⟨existing, hbody, heq⟩ | ⟨hbody, created, t₂, -, heq⟩⟩ :=
      optionalChild_ok h
    · exact ⟨hlookup, present, (Change.mk.inj heq).1 ▸ hbody⟩
    · exfalso
      have htree := (Change.mk.inj heq).2.1
      have hsize : n.index < t₂.slots.size := by
        rw [← size_modify t₂ n fun m => { m with body := .optional (some created) present }]
        exact (congrArg (fun t : Tree => t.slots.size) htree) ▸ (lookup?_eq_some.1 hlookup).1
      have hnode : (t.node n).body = .optional (some created) present := by
        rw [htree, node_eq_slot, Tree.setBody, slot_modify_self hsize]
      rw [hbody] at hnode
      cases hnode
  · rintro ⟨hlookup, present, hbody⟩
    rw [Tree.optionalChild, get_eq_ok.2 hlookup]
    simp [bind, Except.bind, hbody]

/-- What a node holds is a part of it that no loop may release. -/
theorem Holds.kept (h : t.Holds n c) :
    c ∈ (t.node n).body.owned ∧ c ∉ (t.node n).body.elements := by
  cases h with
  | child children h hc =>
      obtain ⟨-, hbody⟩ := sequenceChildren_eq_ok.1 h
      rw [hbody]
      exact ⟨hc, List.not_mem_nil⟩
  | alternative index h =>
      obtain ⟨-, alternatives, current, hbody, hc⟩ := alternative_eq_same.1 h
      rw [hbody]
      exact ⟨Body.owned_of_alternative hc, List.not_mem_nil⟩
  | optionalChild h =>
      obtain ⟨-, present, hbody⟩ := optionalChild_eq_same.1 h
      rw [hbody]
      exact ⟨List.mem_singleton_self c, List.not_mem_nil⟩

end Tree

/-! ### What is made once -/

/-- What is made once is answered with from then on, whether a call asked for it or a text. -/
structure Tree.Recalls (t : Tree) : Prop where
  alternative : ∀ n index change, t.alternative n index = .ok change →
    change.tree.alternative n index = .ok ⟨change.value, change.tree, []⟩
  alternativeOf : ∀ n d change, t.alternativeOf n d = .ok change →
    change.tree.alternativeOf n d = .ok ⟨change.value, change.tree, []⟩
  optionalChild : ∀ n change, t.optionalChild n = .ok change →
    change.tree.optionalChild n = .ok ⟨change.value, change.tree, []⟩
  current : ∀ n index, t.currentIndex n = .ok (some index) →
    ∃ c, t.current n = .ok (some c) ∧ t.alternative n index = .ok ⟨c, t, []⟩
  present : ∀ n, t.isPresent n = .ok true →
    ∃ c, t.children n = .ok [c] ∧ t.optionalChild n = .ok ⟨c, t, []⟩

namespace Garden

variable (h : Garden t roots)
include h

theorem live_of_body {body : Body} (hlookup : t.lookup? n = some (t.node n))
    (hbody : (t.node n).body = body) (hleaf : body ≠ .leaf) : t.Live n := by
  rcases h.live_or_vacant hlookup with hn | ⟨-, hvacant⟩
  · exact h.live_iff.2 hn
  · exact absurd (hbody.symm.trans hvacant.body) hleaf

/-- After a new part was written into a live node, the node holds it. -/
theorem body_made {body : Body} {t₂ : Tree} {change : Change NodeId}
    (hvalid : t.grammar.Valid) (hrank : t.grammar.Ranked) (hn : t.Live n)
    (hok : (∃ index, t.alternative n index = .ok change) ∨
      (∃ d, t.alternativeOf n d = .ok change) ∨ t.optionalChild n = .ok change)
    (htree : change.tree = t₂.setBody n body) :
    change.tree.lookup? n = some (change.tree.node n) ∧ (change.tree.node n).body = body := by
  have hlive := (h.made hvalid hrank hok).2.1.live n hn
  have hsize : n.index < t₂.slots.size := by
    rw [← size_modify t₂ n fun m => { m with body := body }]
    exact (congrArg (fun t : Tree => t.slots.size) htree) ▸ hlive.size
  refine ⟨lookup?_of_live hlive, ?_⟩
  rw [htree, node_eq_slot, Tree.setBody, slot_modify_self hsize]

theorem alternative_again (hvalid : t.grammar.Valid) (hrank : t.grammar.Ranked)
    {change : Change NodeId} (hok : t.alternative n index = .ok change) :
    change.tree.alternative n index = .ok ⟨change.value, change.tree, []⟩ := by
  obtain ⟨alternatives, current, hlookup, hbody, ⟨existing, -, rfl⟩ |
    ⟨hnone, created, t₂, halloc, rfl⟩⟩ := alternative_ok hok
  · exact hok
  · have hn := h.live_of_body hlookup hbody (by simp)
    obtain ⟨hlookup', hbody'⟩ := h.body_made hvalid hrank hn (.inl ⟨index, hok⟩) rfl
    exact alternative_eq_same.2 ⟨hlookup', _, _, hbody',
      List.getElem?_set_self (List.getElem?_eq_some_iff.1 hnone).1⟩

/-- A tree in order answers with what was made before. -/
theorem recalls (hvalid : t.grammar.Valid) (hrank : t.grammar.Ranked) : t.Recalls where
  alternative n index change hok := h.alternative_again hvalid hrank hok
  alternativeOf n d change hok := by
    obtain ⟨alternatives, index, hshape, hindex, hok'⟩ := alternativeOf_eq_ok.1 hok
    obtain ⟨parts, current, hlookup, hbody, -⟩ := alternative_ok hok'
    have hn := h.live_iff.1 (h.live_of_body hlookup hbody (by simp))
    have hkept := (h.made hvalid hrank (.inr (.inl ⟨d, hok⟩))).2.1
    refine alternativeOf_eq_ok.2 ⟨alternatives, index, ?_, hindex, h.alternative_again hvalid hrank hok'⟩
    rw [Tree.shapeOf, hkept.grammar, hkept.definition n hn]
    exact hshape
  optionalChild n change hok := by
    obtain ⟨present, hlookup, ⟨existing, -, rfl⟩ | ⟨hbody, created, t₂, halloc, rfl⟩⟩ :=
      optionalChild_ok hok
    · exact hok
    · have hn := h.live_of_body hlookup hbody (by simp)
      obtain ⟨hlookup', hbody'⟩ := h.body_made hvalid hrank hn (.inr (.inr hok)) rfl
      exact optionalChild_eq_same.2 ⟨hlookup', present, hbody'⟩
  current n index hcurrent := by
    obtain ⟨node, hget, hcurrent⟩ := Except.bind_eq_ok.1 hcurrent
    obtain ⟨hlookup, rfl⟩ := lookup?_of_get hget
    split at hcurrent
    · next alternatives current hbody =>
        obtain rfl := Except.ok.inj hcurrent
        have hn := h.live_of_body hlookup hbody (by simp)
        obtain ⟨-, -, -, -, hsome⟩ := (h.sound n (h.live_iff.1 hn)).formed.shape_choice hbody
        obtain ⟨c, hc⟩ := Option.isSome_iff_exists.1 (hsome rfl)
        refine ⟨c, by rw [hn.current_eq hbody, hc], alternative_eq_same.2
          ⟨hlookup, alternatives, some index, hbody, ?_⟩⟩
        exact Option.join_eq_some_iff.1 hc
    · cases hcurrent
  present n hpresent := by
    obtain ⟨node, hget, hpresent⟩ := Except.bind_eq_ok.1 hpresent
    obtain ⟨hlookup, rfl⟩ := lookup?_of_get hget
    split at hpresent
    · next child present hbody =>
        obtain rfl := Except.ok.inj hpresent
        have hn := h.live_of_body hlookup hbody (by simp)
        have hformed := (h.sound n (h.live_iff.1 hn)).formed
        obtain ⟨item, quantifier, hshape⟩ := hformed.shape_optional hbody
        obtain ⟨child', present', hbody', -, hsome⟩ := (formed_optional_iff hshape).1 hformed
        rw [hbody] at hbody'
        cases hbody'
        obtain ⟨c, rfl⟩ := Option.isSome_iff_exists.1 (hsome rfl)
        exact ⟨c, by rw [hn.children_eq, hbody]; rfl, optionalChild_eq_same.2 ⟨hlookup, true, hbody⟩⟩
    · cases hpresent

end Garden

/-! ### Shelters in a tree in order -/

/-- In a tree in order it is enough to look at live nodes. -/
theorem Planted.sheltered (h : Planted t roots)
    (hinside : ∀ i, W.inside i → ∃ x, t.Live x ∧ x.index = i)
    (helements : ∀ p e, t.Live p → e ∈ (t.node p).body.elements → W.Open e)
    (hparts : ∀ p c, t.Live p → ¬ W.inside p.index → c ∈ (t.node p).body.owned → W.Open c) :
    t.Sheltered W := by
  -- what stands in a slot that is not occupied has no parts
  have hlive : ∀ i, ∀ c ∈ (t.slot i).body.owned, ∃ p, t.Live p ∧ p.index = i := by
    intro i c hc
    by_cases hsize : i < t.slots.size
    · by_cases hfree : i ∈ t.free
      · rw [(h.vacant i hfree).body] at hc
        cases hc
      · exact ⟨⟨i, (t.slot i).generation⟩, ⟨hsize, hfree, rfl⟩, rfl⟩
    · rw [slot_of_size_le (by omega)] at hc
      cases hc
  refine ⟨fun i hi => ?_, fun i e he => ?_, fun i hi c hc => ?_⟩
  · obtain ⟨x, hx, rfl⟩ := hinside i hi
    exact ⟨hx.size, hx.occupied⟩
  · obtain ⟨p, hp, rfl⟩ := hlive i e (Body.owned_of_elements he)
    exact helements p e hp he
  · obtain ⟨p, hp, rfl⟩ := hlive i c hc
    exact hparts p c hp hi hc

namespace Planted

variable (h : Planted t roots)
include h

/-- The parts of live nodes are live, and each has one node that it is a part of. -/
theorem part_unique {p q a b : NodeId} (hp : t.Live p) (ha : a ∈ (t.node p).body.owned)
    (hq : t.Live q) (hb : b ∈ (t.node q).body.owned) (heq : a.index = b.index) : a = b ∧ p = q := by
  obtain ⟨hamem, haparent⟩ := h.owned_mem (h.live_iff.1 hp) ha
  obtain ⟨hbmem, hbparent⟩ := h.owned_mem (h.live_iff.1 hq) hb
  obtain rfl := h.eq_of_index hamem hbmem heq
  exact ⟨rfl, Option.some.inj (haparent.symm.trans hbparent)⟩

/-- A node with the parts that it holds, behind a gate at the node itself. -/
theorem sheltered_holds (hn : t.Live n) :
    t.Sheltered ⟨fun i => i = n.index ∨ ∃ c, t.Holds n c ∧ c.index = i, fun i => i = n.index⟩ := by
  refine h.sheltered (fun i hi => ?_) (fun p e hp he hin => ?_) fun p c hp hout hc hin => ?_
  · rcases hi with rfl | ⟨c, hc, rfl⟩
    · exact ⟨n, hn, rfl⟩
    · exact ⟨c, h.live_iff.2 (h.owned_mem (h.live_iff.1 hn) hc.kept.1).1, rfl⟩
  · rcases hin with hin | ⟨c, hc, hin⟩
    · exact hin
    · -- the element would be the part, and its loop the node
      exfalso
      obtain ⟨rfl, rfl⟩ := h.part_unique hn hc.kept.1 hp (Body.owned_of_elements he) hin
      exact hc.kept.2 he
  · rcases hin with hin | ⟨c', hc', hin⟩
    · exact hin
    · obtain ⟨-, rfl⟩ := h.part_unique hn hc'.kept.1 hp hc hin
      exact absurd (.inl rfl) hout

/-- A node without a parent, with no gate at all. -/
theorem sheltered_root (hn : t.Live n) (hparent : (t.node n).parent = none) :
    t.Sheltered ⟨fun i => i = n.index, fun _ => False⟩ := by
  have hpart : ∀ p c, t.Live p → c ∈ (t.node p).body.owned → c.index ≠ n.index := by
    intro p c hp hc heq
    obtain ⟨hmem, hcparent⟩ := h.owned_mem (h.live_iff.1 hp) hc
    obtain rfl := h.eq_of_index hmem (h.live_iff.1 hn) heq
    rw [hparent] at hcparent
    cases hcparent
  refine h.sheltered (fun i hi => ⟨n, hn, hi.symm⟩) (fun p e hp he hin => ?_)
    fun p c hp _ hc hin => ?_
  · exact hpart p e hp (Body.owned_of_elements he) hin
  · exact hpart p c hp hc hin

/-- All nodes but the elements of loops and what is below them, with no gate at all. -/
theorem sheltered_elements : t.Sheltered
    ⟨fun i => ∃ x, t.Live x ∧ x.index = i ∧ ∀ e, t.Element e → ¬ t.Below e x, fun _ => False⟩ := by
  have hsame : ∀ p c x, t.Live p → c ∈ (t.node p).body.owned → t.Live x → x.index = c.index →
      x = c := fun p c x hp hc hx heq =>
    h.eq_of_index (h.live_iff.1 hx) (h.owned_mem (h.live_iff.1 hp) hc).1 heq
  refine h.sheltered (fun i ⟨x, hx, hi, _⟩ => ⟨x, hx, hi⟩) (fun p e hp he hin => ?_)
    fun p c hp hout hc hin => ?_
  · obtain ⟨x, hx, heq, hbelow⟩ := hin
    obtain rfl := hsame p e x hp (Body.owned_of_elements he) hx heq
    refine hbelow x ?_ .refl
    cases hbody : (t.node p).body with
    | loop items =>
        rw [hbody] at he
        exact ⟨p, items, .inl (hp.items_loop hbody), he⟩
    | separated items separators =>
        rw [hbody] at he
        rcases List.mem_append.1 he with he | he
        · exact ⟨p, items, .inl (hp.items_separated hbody).1, he⟩
        · exact ⟨p, separators, .inr (hp.items_separated hbody).2, he⟩
    | _ =>
        rw [hbody] at he
        cases he
  · -- a part of a node below an element is below that element, too
    obtain ⟨x, hx, heq, hbelow⟩ := hin
    obtain rfl := hsame p c x hp hc hx heq
    exact hout ⟨p, hp, rfl, fun e he hep => hbelow e he (hep.tail hc)⟩

end Planted

/-! ### Nodes that keep their parts -/

/-- What a node keeps while `t` becomes `t'` and the nodes with the handles `log` are released. -/
structure Tree.Steady (t : Tree) (n : NodeId) (log : List NodeId) (t' : Tree) : Prop where
  live : t'.Live n
  children : ∀ children, t.sequenceChildren n = .ok children →
    t'.sequenceChildren n = .ok children
  alternative : ∀ index c, t.alternative n index = .ok ⟨c, t, []⟩ →
    t'.alternative n index = .ok ⟨c, t', []⟩
  alternativeOf : ∀ d c, t.alternativeOf n d = .ok ⟨c, t, []⟩ →
    t'.alternativeOf n d = .ok ⟨c, t', []⟩
  optionalChild : ∀ c, t.optionalChild n = .ok ⟨c, t, []⟩ → t'.optionalChild n = .ok ⟨c, t', []⟩
  /-- What the node holds is not released either. -/
  held : ∀ c, t.Holds n c → t'.Live c ∧ c ∉ log

/-- A node inside of a shelter stays. -/
theorem Tree.Guarded.live (h : t.Guarded W log t') (hx : t.Live x) (hin : W.inside x.index) :
    t'.Live x where
  size := (h.sheltered.occupied _ hin).1
  occupied := (h.sheltered.occupied _ hin).2
  generation := (h.node _ hin).generation.trans hx.generation

/-- **A node that is not released keeps its parts.** -/
theorem Tree.Guarded.steady (h : t.Guarded W log t') (hgrammar : t'.grammar = t.grammar)
    (hn : t.Live n) (hin : W.inside n.index)
    (hheld : ∀ c, t.Holds n c → t.Live c ∧ W.inside c.index) : t.Steady n log t' := by
  have hlive := h.live hn hin
  have hlookup := lookup?_of_live hlive
  obtain ⟨-, hdefinition, hbody⟩ := h.node n.index hin
  rw [← node_eq_slot, ← node_eq_slot] at hdefinition hbody
  have halternative : ∀ index c, t.alternative n index = .ok ⟨c, t, []⟩ →
      t'.alternative n index = .ok ⟨c, t', []⟩ := by
    intro index c hc
    obtain ⟨-, alternatives, current, hchoice, hc⟩ := alternative_eq_same.1 hc
    rw [hchoice] at hbody
    generalize hbody' : (t'.node n).body = body' at hbody
    cases hbody with
    | choice hkept => exact alternative_eq_same.2 ⟨hlookup, _, _, hbody', hkept index c hc⟩
  refine ⟨hlive, fun children hchildren => ?_, halternative, fun d c hc => ?_, fun c hc => ?_,
    fun c hc => ?_⟩
  · obtain ⟨-, hsequence⟩ := sequenceChildren_eq_ok.1 hchildren
    rw [hsequence] at hbody
    generalize hbody' : (t'.node n).body = body' at hbody
    cases hbody
    exact sequenceChildren_eq_ok.2 ⟨hlookup, hbody'⟩
  · obtain ⟨alternatives, index, hshape, hindex, hc⟩ := alternativeOf_eq_ok.1 hc
    refine alternativeOf_eq_ok.2 ⟨alternatives, index, ?_, hindex, halternative index c hc⟩
    rw [Tree.shapeOf, hgrammar, hdefinition]
    exact hshape
  · obtain ⟨-, present, hoptional⟩ := optionalChild_eq_same.1 hc
    rw [hoptional] at hbody
    generalize hbody' : (t'.node n).body = body' at hbody
    cases hbody with
    | @optional _ child' _ present' hkept =>
        obtain rfl := hkept c rfl
        exact optionalChild_eq_same.2 ⟨hlookup, present', hbody'⟩
  · obtain ⟨hclive, hcin⟩ := hheld c hc
    exact ⟨h.live hclive hcin, fun hmem => h.avoids c hmem hcin⟩

namespace Session

/-- **Handles are stable in every run.**  What is made once is answered with from then on.  While a
node is not released, whatever is called, a sequence keeps its children, a choice the nodes of its
alternatives and an optional the node of its part, and none of these is released.  Of the nodes that
are there when a call is made it releases only elements of loops and what is below them.  A created
node is never released. -/
theorem stable_run {draft : Draft} (hbuild : draft.build = .ok g) (ops : List Operation)
    (hrun : run g ops = s) :
    s.tree.Recalls ∧
    (∀ later n, s.tree.Live n → n ∉ logEach step stepLog s later →
      s.tree.Steady n (logEach step stepLog s later) (later.foldl step s).tree) ∧
    (∀ op x, s.tree.Live x → x ∈ s.stepLog op → ∃ e, s.tree.Element e ∧ s.tree.Below e x) ∧
    ∀ later, ∀ r ∈ s.created,
      (later.foldl step s).tree.Live r ∧ r ∉ logEach step stepLog s later := by
  have hvalid := Draft.build_valid hbuild
  have hrank := Draft.build_ranked hbuild
  have htended : Tended g s := hrun ▸ tended_run hvalid hrank ops
  obtain ⟨hgrammar, -, roots, hgarden, hroots⟩ := htended
  have hlater : ∀ later : List Operation,
      (later.foldl step s).tree.grammar = s.tree.grammar := fun later => by
    rw [← hrun, ← run_append, (tended_run hvalid hrank (ops ++ later)).grammar, hrun, hgrammar]
  refine ⟨hgarden.recalls (hgrammar ▸ hvalid) (hgrammar ▸ hrank), fun later n hn hkept => ?_,
    fun op x hx hmem => ?_, fun later r hr => ?_⟩
  · have hshut : ∀ id ∈ logEach step stepLog s later, id.index ≠ n.index := fun id hid heq =>
      hkept ((foldl_logged later s).mem_of_timesReleased hn fun hzero =>
        List.countP_eq_zero.1 hzero id hid (by simpa using heq))
    refine (foldl_guarded later s (hgarden.sheltered_holds hn) hshut).steady (hlater later) hn
      (.inl rfl) fun c hc => ⟨?_, .inr ⟨c, hc, rfl⟩⟩
    exact hgarden.live_iff.2 (hgarden.owned_mem (hgarden.live_iff.1 hn) hc.kept.1).1
  · by_contra hnone
    have hguarded := step_guarded s op hgarden.sheltered_elements fun _ _ => id
    exact hguarded.avoids x hmem ⟨x, hx, rfl, fun e he hbelow => hnone ⟨e, he, hbelow⟩⟩
  · obtain ⟨hlive, hparent⟩ := hgarden.forest.created_live r (hroots ▸ hr)
    rw [hlive.parent_eq] at hparent
    have hguarded := foldl_guarded later s
      (hgarden.sheltered_root hlive (Except.ok.inj hparent)) fun _ _ => id
    exact ⟨hguarded.live hlive rfl, fun hmem => hguarded.avoids r hmem rfl⟩

/-- An optional run keeps its node when its only digit is taken out: the digit is released, and the
run is not. -/
theorem stable_run_maybe :
    maybeDraft.build = .ok maybeGrammar ∧
      maybeFilled.stepLog (.remove ⟨1, 0⟩ 0) = [⟨2, 0⟩] ∧
      maybeFilled.tree.optionalChild ⟨0, 0⟩ = .ok ⟨⟨1, 0⟩, maybeFilled.tree, []⟩ ∧
      ∃ t, (maybeFilled.step (.remove ⟨1, 0⟩ 0)).tree = t ∧
        t.optionalChild ⟨0, 0⟩ = .ok ⟨⟨1, 0⟩, t, []⟩ := by
  have hlog : maybeFilled.stepLog (.remove ⟨1, 0⟩ 0) = [⟨2, 0⟩] := rfl
  have hchild : maybeFilled.tree.optionalChild ⟨0, 0⟩ = .ok ⟨⟨1, 0⟩, maybeFilled.tree, []⟩ := rfl
  have hlive : maybeFilled.tree.Live ⟨0, 0⟩ := ⟨by decide, by decide, rfl⟩
  obtain ⟨-, hsteady, -, -⟩ := stable_run maybeDraft_build _ run_maybe
  have hkept : (⟨0, 0⟩ : NodeId) ∉ logEach step stepLog maybeFilled [.remove ⟨1, 0⟩ 0] := by
    rw [logEach, hlog]
    decide
  exact ⟨maybeDraft_build, hlog, hchild, _, rfl,
    (hsteady [.remove ⟨1, 0⟩ 0] _ hlive hkept).optionalChild _ hchild⟩

end Session

end Tessera
