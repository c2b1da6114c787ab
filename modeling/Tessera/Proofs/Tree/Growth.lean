/-
**New nodes.**

A new node comes with the children of its sequences, down to nodes of other kinds.  What fills the
new nodes is left open here: nothing for nodes that are about to receive a content, the default
content for all others.

Main definitions:

* `Tessera.Tree.Bare` — branches without any parts but the children of sequences;
* `Tessera.Fills` — filling a node leaves everything in order.

Main results:

* `Tessera.Tree.allocWith_sprouted` — **new nodes are in order and take nothing from the others**;
* `Tessera.Tree.alloc_sprouted` — nodes without contents.
-/

import Tessera.Proofs.Grammar.Eager
import Tessera.Proofs.Tree.Groves

set_option autoImplicit false

namespace Tessera

open Branch Tessera.Tree

/-- Nothing is there but the children of sequences. -/
def Tree.Bare (t : Tree) (bs : List Branch) : Prop :=
  ∀ id ∈ idsAll bs,
    (t.node id).body.owned = [] ∨ ∃ children, (t.node id).body = .sequence children

/-- Filling a node leaves everything in order. -/
def Fills (g : Grammar) (fill : DefId → NodeId → Tree → Tree) : Prop :=
  ∀ (t : Tree) (parent : Option NodeId) (b : Branch), t.grammar = g → Grove t parent [b] →
    ∃ b' freed, b'.root = b.root ∧ b.root.index ∉ freed ∧
      Regrown t (fill (t.node b.root).definition b.root t) parent [b] [b'] freed

variable {t t' : Tree} {parent : Option NodeId} {id : NodeId} {bs bs' : List Branch}
  {freed : List Nat}

theorem Tree.Bare.congr (h : t.Bare bs) (hsame : ∀ x ∈ idsAll bs, t'.node x = t.node x) :
    t'.Bare bs := by
  intro x hx
  rw [hsame x hx]
  exact h x hx

/-- A node of another kind than a sequence has no parts there. -/
theorem Tree.Bare.parts_nil {ps : List Branch} (h : t.Bare [.fork id ps])
    (howned : (t.node id).body.owned = ps.map Branch.root)
    (hseq : ∀ children, (t.node id).body ≠ .sequence children) : ps = [] := by
  rcases h id (by simp) with hnil | ⟨children, hbody⟩
  · rw [hnil] at howned
    exact List.map_eq_nil_iff.1 howned.symm
  · exact absurd hbody (hseq children)

/-! ### Fresh nodes -/

/-- A new node of a rule that is not a sequence has no parts. -/
theorem Body.owned_fresh (rule : Rule) : (Body.fresh rule).owned = [] := by
  cases rule <;> simp [Body.fresh, Body.owned]

theorem Body.idle_fresh (rule : Rule) : (Body.fresh rule).Idle := by
  cases rule <;> simp [Body.fresh, Body.Idle]

namespace Tree

/-- A node without a content and without parts is in order, unless its rule is a sequence of
something. -/
theorem Sound.of_fresh (hbody : (t.node id).body = .fresh (t.shapeOf id))
    (hcontent : (t.node id).content = none)
    (hseq : ∀ items, t.shapeOf id = .sequence items → items = []) : t.Sound id := by
  refine ⟨?_, ⟨?_, ?_, ?_, ?_⟩, ?_⟩
  · unfold Formed
    rw [hbody]
    split
    · next items hitems =>
        rw [hitems, hseq items hitems]
        exact ⟨[], rfl, rfl⟩
    · next defs hdefs =>
        rw [hdefs]
        refine ⟨_, _, rfl, by simp, ?_, by simp⟩
        intro i c hc
        simp [List.getElem?_replicate] at hc
    · next hshape =>
        rw [hshape]
        exact ⟨none, false, rfl, by simp, by simp⟩
    · next hshape =>
        rw [hshape]
        exact ⟨[], rfl, by simp⟩
    · next hshape =>
        rw [hshape]
        exact ⟨[], [], rfl, by simp, by simp, rfl⟩
    · next hsequence hchoice hoptional hloop hseparated =>
        cases hshape : t.shapeOf id with
        | sequence items => exact absurd hshape (hsequence items)
        | choice defs => exact absurd hshape (hchoice defs)
        | optional item quantifier => exact absurd hshape (hoptional item quantifier)
        | loop item repetition => exact absurd hshape (hloop item repetition)
        | separated item separator default repetition =>
            exact absurd hshape (hseparated item separator default repetition)
        | _ => rfl
  · intro _
    rw [hbody]
    exact Body.idle_fresh _
  · simp [hcontent]
  · simp [hcontent]
  · simp [hcontent]
  · intro w hw
    simp [hcontent] at hw

/-- A sequence without a content whose children are those of its rule is in order. -/
theorem Sound.of_children {children : List NodeId} {items : List DefId}
    (hshape : t.shapeOf id = .sequence items) (hbody : (t.node id).body = .sequence children)
    (hcontent : (t.node id).content = none)
    (hdefs : children.map (fun c => (t.node c).definition) = items) : t.Sound id := by
  refine ⟨?_, ⟨?_, ?_, ?_, ?_⟩, ?_⟩
  · unfold Formed
    rw [hshape]
    exact ⟨children, hbody, hdefs⟩
  · intro _
    rw [hbody]
    trivial
  · simp [hcontent]
  · simp [hcontent]
  · simp [hcontent]
  · intro w hw
    simp [hcontent] at hw

/-! ### New nodes -/

/-- A new node takes a free slot and is opened, with nothing below it. -/
theorem occupy_opened (hap : t.Apart []) {n : Node} (hheard : n.listeners = [])
    (h : t.occupy n = (id, t')) :
    t.Rework t' [] [id.index] [] ∧ Opened t' n.parent id [] ∧
      t'.node id = { n with generation := id.generation } := by
  obtain ⟨hr, hnode⟩ := occupy_rework hap hheard
  rw [h] at hr hnode
  have hap' : t'.Apart [id.index] := hr.apart (R := []) hap (by simp) (by simp)
  refine ⟨hr, ⟨by simpa using hap', ?_, ?_, .nil ?_⟩, hnode⟩
  · rw [hnode]
  · rw [hnode]
  · exact hap'.mono (by simp)

/-- What a new node and the nodes that come with it look like. -/
structure Sprouted (t t' : Tree) (parent : Option NodeId) (ids : List NodeId) (ds : List DefId)
    (bs : List Branch) (freed : List Nat) : Prop where
  regrown : Regrown t t' parent [] bs freed
  roots : bs.map Branch.root = ids
  definitions : ids.map (fun id => (t'.node id).definition) = ds

/-- New nodes come one after another, and the later ones leave the first one alone. -/
theorem Sprouted.cons {t'' : Tree} {d : DefId} {ids : List NodeId} {ds : List DefId} {b : Branch}
    {freed' : List Nat} (hap : t.Apart []) (h : Sprouted t t' parent [id] [d] [b] freed)
    (h' : Sprouted t' t'' parent ids ds bs freed') :
    Sprouted t t'' parent (id :: ids) (d :: ds) (b :: bs) (freed ++ freed') ∧
      ∀ x ∈ idsAll [b], t''.node x = t'.node x := by
  have hempty : Grove t parent ([] ++ []) := .nil hap
  obtain ⟨hall, hsame⟩ := h.regrown.append hempty h'.regrown
  obtain rfl : b.root = id := by simpa using h.roots
  have hd : (t'.node b.root).definition = d := by simpa using h.definitions
  refine ⟨⟨hall, by rw [List.map_cons, h'.roots], ?_⟩, hsame⟩
  rw [List.map_cons, h'.definitions, hsame b.root (by simpa using b.root_mem_ids), hd]

/-- New nodes for several definitions. -/
theorem allocEach_sprouted {alloc : DefId → Tree → NodeId × Tree} {P : Prop} {ds : List DefId}
    (halloc : ∀ d ∈ ds, ∀ s : Tree, s.grammar = t.grammar → s.Apart [] →
      ∃ b freed, Sprouted s (alloc d s).2 parent [(alloc d s).1] [d] [b] freed ∧
        (P → freed = [] ∧ (alloc d s).2.Bare [b]))
    (hap : t.Apart []) :
    ∃ bs freed, Sprouted t (allocEach alloc ds t).2 parent (allocEach alloc ds t).1 ds bs freed ∧
      (P → freed = [] ∧ (allocEach alloc ds t).2.Bare bs) := by
  induction ds generalizing t with
  | nil =>
      exact ⟨[], [], ⟨.refl (.nil hap), rfl, rfl⟩, fun _ => ⟨rfl, by simp [Bare]⟩⟩
  | cons d ds ih =>
      obtain ⟨b, freed, hb, hbare⟩ := halloc d List.mem_cons_self t rfl hap
      have hap' : (alloc d t).2.Apart [] := hb.regrown.grove.apart.mono (by simp)
      obtain ⟨bs, freed', hbs, hbares⟩ := ih (t := (alloc d t).2)
        (fun d hd s hs => halloc d (List.mem_cons_of_mem _ hd) s
          (hs.trans hb.regrown.rework.grammar)) hap'
      obtain ⟨hall, hsame⟩ := hb.cons hap hbs
      refine ⟨b :: bs, freed ++ freed', hall, fun h => ⟨?_, ?_⟩⟩
      · rw [(hbare h).1, (hbares h).1]
        rfl
      · intro x hx
        rw [idsAll_cons] at hx
        rcases List.mem_append.1 hx with hx | hx
        · exact (hbare h).2.congr hsame x (by simpa using hx)
        · exact (hbares h).2 x hx

/-- A new node of a sequence, once its children are there. -/
theorem sequence_sprouted {d : DefId} {items : List DefId} {s s' : Tree} {children : List NodeId}
    {cs : List Branch} {P : Prop} (hap : t.Apart [])
    (hshape : t.grammar.shape d = .sequence items)
    (hoccupy : t.occupy (t.freshNode d parent) = (id, s))
    (hcs : Sprouted s s' (some id) children items cs freed)
    (hbare : P → freed = [] ∧ s'.Bare cs) :
    Sprouted t (s'.setBody id (.sequence children)) parent [id] [d] [.fork id cs] freed ∧
      (P → freed = [] ∧ (s'.setBody id (.sequence children)).Bare [.fork id cs]) := by
  obtain ⟨hr, hopened, hnode⟩ := occupy_opened hap rfl hoccupy
  obtain ⟨hre, hself⟩ := hopened.step_all hcs.regrown
  obtain ⟨hbody, hself', hparts⟩ := hre.opened.setBody (.sequence children)
  rw [hself, hnode] at hself'
  have hgrammar : (s'.setBody id (.sequence children)).grammar = t.grammar :=
    hcs.regrown.rework.grammar.trans hr.grammar
  have hdefs : children.map (fun c => ((s'.setBody id (.sequence children)).node c).definition) =
      items := by
    rw [← hcs.definitions]
    refine List.map_congr_left fun c hc => ?_
    rw [← hcs.roots] at hc
    obtain ⟨b, hb, rfl⟩ := List.mem_map.1 hc
    rw [hparts b.root (mem_idsAll.2 ⟨b, hb, b.root_mem_ids⟩)]
  have hsound : (s'.setBody id (.sequence children)).Sound id := by
    refine Sound.of_children (t := s'.setBody id (.sequence children)) ?_ (by rw [hself']) (by rw [hself']; rfl) hdefs
    rw [shapeOf, hgrammar, hself']
    exact hshape
  have hroots : ((s'.setBody id (.sequence children)).node id).body.owned = cs.map Branch.root := by
    rw [hself', hcs.roots]
    rfl
  have hclosed := (hre.trans hbody).close hroots hsound
  refine ⟨⟨⟨?_, hclosed.grove⟩, rfl, ?_⟩, fun h => ⟨(hbare h).1, ?_⟩⟩
  · simpa using hr.trans (hre.rework.trans hbody.rework)
  · simp [hself', freshNode]
  · intro x hx
    have hx : x = id ∨ x ∈ idsAll cs := by simpa using hx
    rcases hx with rfl | hx
    · exact .inr ⟨children, by rw [hself']⟩
    · exact (hbare h).2.congr hparts x hx

/-- A new node of any other rule. -/
theorem single_sprouted {d : DefId} {s : Tree} (hap : t.Apart [])
    (hshape : ∀ items, t.grammar.shape d ≠ .sequence items)
    (hoccupy : t.occupy (t.freshNode d parent) = (id, s)) :
    Sprouted t s parent [id] [d] [.fork id []] [] ∧ s.Bare [.fork id []] := by
  obtain ⟨hr, hopened, hnode⟩ := occupy_opened hap rfl hoccupy
  have hshapeOf : s.shapeOf id = t.grammar.shape d := by
    rw [shapeOf, hr.grammar, hnode]
    rfl
  have howned : (s.node id).body.owned = [] := by
    rw [hnode]
    exact Body.owned_fresh _
  have hsound : s.Sound id := by
    refine Sound.of_fresh ?_ (by rw [hnode]; rfl) fun items hitems => ?_
    · rw [hshapeOf, hnode]
      rfl
    · rw [hshapeOf] at hitems
      exact absurd hitems (hshape items)
  refine ⟨⟨⟨by simpa using hr, hopened.close howned hsound⟩, rfl, ?_⟩, ?_⟩
  · simp [hnode, freshNode]
  · intro x hx
    obtain rfl : x = id := by simpa using hx
    exact .inl howned

/-- Filling a new node. -/
theorem Sprouted.fill {fill : DefId → NodeId → Tree → Tree} {P : Prop} {d : DefId}
    (hfill : Fills t.grammar fill) (hbare : P → ∀ d id t, fill d id t = t)
    (h : ∃ b freed, Sprouted t t' parent [id] [d] [b] freed ∧ (P → freed = [] ∧ t'.Bare [b])) :
    ∃ b freed, Sprouted t (fill d id t') parent [id] [d] [b] freed ∧
      (P → freed = [] ∧ (fill d id t').Bare [b]) := by
  obtain ⟨b, freed, hb, hfree⟩ := h
  by_cases hbare' : P
  · rw [hbare hbare']
    exact ⟨b, freed, hb, hfree⟩
  · obtain rfl : b.root = id := by simpa using hb.roots
    have hd : (t'.node b.root).definition = d := by simpa using hb.definitions
    obtain ⟨b', freed', hroot, hkept, hr⟩ :=
      hfill t' parent b hb.regrown.rework.grammar hb.regrown.grove
    rw [hd] at hr
    have hpersists := (hr.persists hb.regrown.grove (by simpa using b.root_mem_ids) hkept).1
    refine ⟨b', freed ++ freed', ⟨hb.regrown.trans hr, by simpa using hroot, ?_⟩,
      fun h => absurd h hbare'⟩
    simpa [hpersists.definition] using hd

/-- **New nodes are in order and take nothing from the others.** -/
theorem allocWith_sprouted {g : Grammar} (hg : g.Valid) {rank : DefId → Nat}
    (hrank : ∀ d, ∀ e ∈ (g.rule d).eager, rank e < rank d)
    {fill : DefId → NodeId → Tree → Tree} (hfill : Fills g fill) {P : Prop}
    (hbare : P → ∀ d id t, fill d id t = t) {fuel : Nat} {d : DefId} (hfuel : rank d < fuel)
    {t : Tree} (ht : t.grammar = g) (hap : t.Apart []) (parent : Option NodeId) :
    ∃ b freed, Sprouted t (allocWith fill fuel parent d t).2 parent
        [(allocWith fill fuel parent d t).1] [d] [b] freed ∧
      (P → freed = [] ∧ (allocWith fill fuel parent d t).2.Bare [b]) := by
  induction fuel generalizing d t parent with
  | zero => omega
  | succ fuel ih =>
      rcases hoccupy : t.occupy (t.freshNode d parent) with ⟨id, s⟩
      have hgrammar : s.grammar = g := (occupy_opened hap rfl hoccupy).1.grammar.trans ht
      have hempty : s.Apart [] := (occupy_opened hap rfl hoccupy).2.1.apart.mono (by simp)
      rw [← ht] at hfill
      by_cases hseq : ∃ items, g.shape d = .sequence items
      · obtain ⟨items, hitems⟩ := hseq
        have hbelow : ∀ e ∈ items, rank e < fuel := by
          intro e he
          have := Grammar.Ranked.item_lt hg hrank hitems he
          omega
        obtain ⟨cs, freed, hcs, hcsbare⟩ := allocEach_sprouted (P := P)
          (fun e he s hs hap' => ih (hbelow e he) (hs.trans hgrammar) hap' (some id)) hempty
        have hfirst := sequence_sprouted hap (by rw [ht, hitems]) hoccupy hcs hcsbare
        simp only [allocWith, hoccupy, hgrammar, hitems]
        exact Sprouted.fill hfill hbare ⟨_, _, hfirst⟩
      · obtain ⟨hfirst, hfirstbare⟩ := single_sprouted hap
          (fun items hitems => hseq ⟨items, by rw [← ht, hitems]⟩) hoccupy
        have heq : allocWith fill (fuel + 1) parent d t = (id, fill d id s) := by
          simp only [allocWith, hoccupy, hgrammar]
          split
          · next items hitems => exact absurd ⟨items, hitems⟩ hseq
          · rfl
        rw [heq]
        exact Sprouted.fill hfill hbare ⟨_, _, hfirst, fun _ => ⟨rfl, hfirstbare⟩⟩

theorem fills_nothing (g : Grammar) : Fills g fun _ _ t => t :=
  fun _ _ b _ hgrove => ⟨b, [], rfl, by simp, .refl hgrove⟩

/-- A new node without a content. -/
theorem alloc_sprouted (hg : t.grammar.Valid) (hr : t.grammar.Ranked) (hap : t.Apart [])
    (p : NodeId) (d : DefId) :
    ∃ b, Sprouted t (alloc p d t).2 (some p) [(alloc p d t).1] [d] [b] [] ∧
      (alloc p d t).2.Bare [b] := by
  obtain ⟨rank, hle, hlt⟩ := hr
  have hfuel : rank d < t.allocFuel := by
    have := hle d
    rw [allocFuel]
    omega
  obtain ⟨b, freed, hb, hbare⟩ := allocWith_sprouted (P := True) hg hlt
    (fills_nothing t.grammar) (fun _ _ _ _ => rfl) hfuel rfl hap (some p)
  obtain ⟨rfl, hnone⟩ := hbare trivial
  exact ⟨b, hb, hnone⟩

/-- A new node that is filled. -/
theorem filled_sprouted {fill : DefId → NodeId → Tree → Tree} (hg : t.grammar.Valid)
    (hr : t.grammar.Ranked) (hfill : Fills t.grammar fill) (hap : t.Apart [])
    (parent : Option NodeId) (d : DefId) :
    ∃ b freed, Sprouted t (allocWith fill t.allocFuel parent d t).2 parent
      [(allocWith fill t.allocFuel parent d t).1] [d] [b] freed := by
  obtain ⟨rank, hle, hlt⟩ := hr
  have hfuel : rank d < t.allocFuel := by
    have := hle d
    rw [allocFuel]
    omega
  obtain ⟨b, freed, hb, -⟩ := allocWith_sprouted (P := False) hg hlt hfill
    (fun h => h.elim) hfuel rfl hap parent
  exact ⟨b, freed, hb⟩

end Tree

end Tessera
