/-
**Nodes that are made on first use.**

A new node below a choice or an optional is put among the parts that the node holds, but not among
those that make up its content.  So nothing that was there before changes, except that the node holds
one part more.

Main results:

* `Tessera.Garden.refit` — a branch takes the place of another without a change of the content;
* `Tessera.Garden.adopt` — **a node holds a new part that is not active**;
* `Tessera.Garden.alternative`, `alternativeOf`, `optionalChild`, `create` — the calls.
-/

import Tessera.Proofs.Tree.Items

set_option autoImplicit false

namespace Tessera

open Branch Tessera.Tree

variable {t t' t₂ : Tree} {parent : Option NodeId} {id n p x created : NodeId}
  {roots roots' : List Branch} {b c c' : Branch} {freed : List Nat} {index : Nat} {d : DefId}

/-- **A branch takes the place of another without a change of the content** of its root: the whole
tree stays in order. -/
theorem Garden.refit (h : Garden t roots) (hb : b ∈ roots) (hin : c.Inside b)
    (hc : c.Stands t (t.node c.root).parent)
    (hr : Regrown t t' (t.node c.root).parent [c] [c'] freed) (hroot : c'.root = c.root)
    (hkept : c.root.index ∉ freed)
    (hcontent : (t'.node c.root).content = (t.node c.root).content) :
    ∃ roots', Garden t' roots' ∧ roots'.map Branch.root = roots.map Branch.root ∧
      ∀ x ∈ idsAll roots, x ∉ c.ids → t'.node x = t.node x := by
  obtain ⟨roots', hpending, hroots, -⟩ := h.pending hb hin hc hr hroot hkept
    fun hset => by rwa [hcontent]
  have hrework : t.Rework t' c.slots c'.slots freed := by simpa using hr.rework
  have hsame : ∀ x ∈ idsAll roots, x ∉ c.ids → t'.node x = t.node x :=
    fun x hx hxc => h.node_outside hb hin hrework hx hxc
  have hnode := (hr.persists (h.grove_of_inside hb hin hc) (by simpa using c.root_mem_ids) hkept).1
  refine ⟨roots', ⟨hpending.planted, fun x hx => ?_⟩, hroots, hsame⟩
  refine ⟨hpending.formed x hx, hpending.settled x hx, ?_⟩
  rcases hpending.composed x hx with hcomposed | ⟨hp, -⟩
  · exact hcomposed
  · -- the node above the branch is the same, and so are the contents of its parts
    rw [hnode.parent] at hp
    obtain ⟨hxmem, -⟩ := h.owner (mem_idsAll.2 ⟨b, hb, hin.subset c.root_mem_ids⟩) hp
    have hxc := h.root_parent_outside hb hin hc hp
    refine (h.sound x hxmem).composed.congr hrework.grammar (.of_eq (hsame x hxmem hxc))
      (by rw [hsame x hxmem hxc]) fun y hy => ?_
    obtain ⟨hymem, hyparent⟩ := h.owned_mem hxmem (Body.owned_of_active hy)
    by_cases hne : y = c.root
    · rw [hne, hcontent]
    · rw [hsame y hymem fun hyc => hne (Planted.eq_root_of_outside hc hyc hyparent hxc)]

/-- New nodes take no slot of a live one. -/
theorem Tree.Rework.live {after : List Nat} (h : t.Rework t' [] after freed) (hx : t.Live x)
    (hgeneration : (t'.node x).generation = (t.node x).generation) : t'.Live x where
  size := Nat.lt_of_lt_of_le hx.size h.size_le
  occupied hfree := by
    rcases h.freed_of_free _ hfree with hfree | hfreed
    · exact hx.occupied hfree
    · rcases h.freed_from _ hfreed with hmem | hfree | hsize
      · simp at hmem
      · exact hx.occupied hfree
      · exact absurd hx.size (Nat.not_lt.2 hsize)
  generation := hgeneration.trans hx.generation

/-- **A node holds a new part that is not active.** -/
theorem Garden.adopt (h : Garden t roots) (body : Body) (hvalid : t.grammar.Valid)
    (hrank : t.grammar.Ranked) (hn : n ∈ idsAll roots)
    (halloc : t.allocFilled (some n) d = (created, t₂))
    (howned : body.owned.Perm (created :: (t.node n).body.owned))
    (hactive : body.active = (t.node n).body.active)
    (hidle : (t.node n).body.Idle → body.Idle) (hitems : body.items = (t.node n).body.items)
    (hchosen : ∀ alternatives current, body = .choice alternatives current →
      ∃ alternatives', (t.node n).body = .choice alternatives' current)
    (hformed : ∀ t' : Tree, t'.shapeOf n = t.shapeOf n → (t'.node n).body = body →
      (∀ x ∈ (t.node n).body.owned, (t'.node x).definition = (t.node x).definition) →
      (t'.node created).definition = d → t'.Formed n) :
    (∃ roots', Garden (t₂.setBody n body) roots' ∧
        roots'.map Branch.root = roots.map Branch.root) ∧
      (t₂.setBody n body).grammar = t.grammar ∧ t.Inherits (t₂.setBody n body) ∧
      (∀ x, t.Live x → (t₂.setBody n body).Live x) ∧
      (t₂.setBody n body).node n = { t.node n with body := body } ∧
      ∀ x ∈ idsAll roots, x ≠ n → (t₂.setBody n body).node x = t.node x := by
  obtain ⟨b, c, hb, hin, rfl, hc⟩ := h.exists_branch hn
  obtain ⟨n, ps⟩ := c
  simp only [root_fork] at *
  obtain ⟨ho, hparts, hsound⟩ := Opened.of_grove (h.grove_of_inside hb hin hc)
  obtain ⟨u, freed, hu⟩ := allocFilled_sprouted hvalid hrank (h.apart.mono (by simp)) d halloc
  obtain rfl : u.root = created := by simpa using hu.roots
  have hdef : (t₂.node u.root).definition = d := by simpa using hu.definitions
  obtain ⟨hre, hnode, hkept, hfresh⟩ := ho.sprout hu.regrown body
  obtain ⟨qs, hqs, hroots⟩ : ∃ qs : List Branch, qs.Perm (ps ++ [u]) ∧
      qs.map Branch.root = body.owned := by
    refine Branch.exists_perm_roots (howned.trans ?_)
    rw [hparts, List.map_append]
    exact (List.perm_append_singleton _ _).symm
  have hold : ∀ x ∈ (t.node n).body.owned, (t₂.setBody n body).node x = t.node x := fun x hx => by
    rw [hparts] at hx
    exact hkept x (Grove.root_mem hx)
  have hshape : (t₂.setBody n body).shapeOf n = t.shapeOf n := by
    rw [shapeOf, hnode, hre.rework.grammar]
    rfl
  have hsound' : (t₂.setBody n body).Sound n := by
    refine ⟨hformed _ hshape (by rw [hnode]) (fun x hx => by rw [hold x hx]) ?_,
      ⟨fun hnone => ?_, fun hset x hx => ?_, fun hset alternatives current hbody => ?_,
        fun hset r hr => ?_⟩, fun w hw => ?_⟩
    · rw [hfresh u.root (by simpa using u.root_mem_ids)]
      exact hdef
    · rw [hnode] at hnone ⊢
      exact hidle (hsound.settled.idle hnone)
    · rw [hnode] at hset hx
      have hx : x ∈ (t.node n).body.active := hactive ▸ hx
      rw [hold x (Body.owned_of_active hx)]
      exact hsound.settled.active hset x hx
    · rw [hnode] at hset hbody
      obtain ⟨alternatives', hbody'⟩ := hchosen alternatives current hbody
      exact hsound.settled.chosen hset alternatives' current hbody'
    · rw [hnode] at hset ⊢
      rw [hshape] at hr
      change r.admits body.items.length = true
      rw [hitems]
      exact hsound.settled.admitted hset r hr
    · rw [hnode] at hw
      have := hsound.composed w hw
      have hcontents : (t₂.setBody n body).contents body.active =
          t.contents (t.node n).body.active := by
        rw [hactive]
        exact contents_congr fun x hx => by rw [hold x (Body.owned_of_active hx)]
      rw [hshape, hnode, hre.rework.grammar, hcontents]
      exact this
  have hclosed := (hre.perm ho (.refl ps) hqs.symm).close (by rw [hnode, hroots]) hsound'
  -- what is given back on the way belongs to the new nodes
  have hfreed : n.index ∉ freed := fun hmem => by
    rcases hu.regrown.rework.freed_from _ hmem with hmem | hmem | hmem
    · simp at hmem
    · exact ho.apart.not_free List.mem_cons_self hmem
    · exact absurd ho.size (Nat.not_lt.2 hmem)
  obtain ⟨roots', hgarden, hheads, hsame⟩ := h.refit hb hin hc hclosed rfl hfreed
    (by rw [root_fork, hnode])
  have hrest : ∀ x ∈ idsAll roots, x ≠ n → (t₂.setBody n body).node x = t.node x := by
    intro x hx hne
    by_cases hxc : x ∈ (Branch.fork n ps).ids
    · exact hkept x ((List.mem_cons.1 hxc).resolve_left hne)
    · exact hsame x hx hxc
  refine ⟨⟨roots', hgarden, hheads⟩, hre.rework.grammar, hre.rework.inherits, fun x hx => ?_, hnode,
    hrest⟩
  have hlive : t₂.Live x := by
    refine hu.regrown.rework.live hx ?_
    have hap : t.Apart (slotsAll roots ++ slotsAll []) := by simpa using h.apart
    exact congrArg Node.generation
      (hu.regrown.rework.slot_eq hap (index_mem_slotsAll (h.live_iff.1 hx)))
  refine ⟨by rw [setBody, size_modify]; exact hlive.size, hlive.occupied, ?_⟩
  by_cases hne : x = n
  · rw [hne, hnode]
    exact hne ▸ hx.generation
  · rw [hrest x (h.live_iff.1 hx) hne]
    exact hx.generation

/-! ### The calls -/

namespace Tree

/-- What a call for an alternative found, and what it did. -/
theorem alternative_ok {change : Change NodeId} (h : t.alternative n index = .ok change) :
    ∃ alternatives current, t.lookup? n = some (t.node n) ∧
      (t.node n).body = .choice alternatives current ∧
      ((∃ existing, alternatives[index]? = some (some existing) ∧ change = ⟨existing, t, []⟩) ∨
        alternatives[index]? = some none ∧ ∃ created t₂,
          t.allocFilled (some n) (Edit.alternativeDef t n index) = (created, t₂) ∧
          change = ⟨created,
            t₂.setBody n (.choice (alternatives.set index (some created)) current), []⟩) := by
  unfold Tree.alternative at h
  obtain ⟨node, hget, h⟩ := Except.bind_eq_ok.1 h
  have hlookup := get_eq_ok.1 hget
  obtain ⟨-, -, rfl⟩ := lookup?_eq_some.1 hlookup
  split at h
  · next alternatives current hbody =>
      refine ⟨alternatives, current, hlookup, hbody, ?_⟩
      split at h
      · cases h
      · next existing hexisting => exact .inl ⟨existing, hexisting, (Except.ok.inj h).symm⟩
      · next hnone => exact .inr ⟨hnone, _, _, rfl, (Except.ok.inj h).symm⟩
  · cases h

/-- What a call for a new node without a parent found, and what it did. -/
theorem create_ok {change : Change NodeId} (h : t.create d = .ok change) :
    d < t.grammar.size ∧ ∃ created t₂, t.allocFilled none d = (created, t₂) ∧
      change = ⟨created, t₂, []⟩ := by
  unfold Tree.create at h
  split at h
  · next hcontains =>
      exact ⟨by simpa [Grammar.contains] using hcontains, _, _, rfl, (Except.ok.inj h).symm⟩
  · cases h

/-- A call for the alternative of a definition is one for the first alternative of it. -/
theorem alternativeOf_eq_ok {change : Change NodeId} : t.alternativeOf n d = .ok change ↔
    ∃ alternatives index, t.shapeOf n = .choice alternatives ∧
      alternatives.findIdx? (· == d) = some index ∧ t.alternative n index = .ok change := by
  constructor
  · intro h
    unfold Tree.alternativeOf at h
    obtain ⟨node, hget, h⟩ := Except.bind_eq_ok.1 h
    split at h
    · dsimp only at h
      cases hshape : t.shapeOf n with
      | choice alternatives =>
          rw [hshape] at h
          dsimp only at h
          split at h
          · next index hindex => exact ⟨alternatives, index, rfl, hindex, h⟩
          · cases h
      | _ =>
          rw [hshape] at h
          cases h
    · cases h
  · rintro ⟨alternatives, index, hshape, hindex, h⟩
    obtain ⟨parts, current, hlookup, hbody, -⟩ := alternative_ok h
    rw [Tree.alternativeOf, get_eq_ok.2 hlookup]
    simpa [bind, Except.bind, hbody, hshape, hindex] using h

/-- What a call for the node of an optional part found, and what it did. -/
theorem optionalChild_ok {change : Change NodeId} (h : t.optionalChild n = .ok change) :
    ∃ present, t.lookup? n = some (t.node n) ∧
      ((∃ existing, (t.node n).body = .optional (some existing) present ∧
          change = ⟨existing, t, []⟩) ∨
        (t.node n).body = .optional none present ∧ ∃ created t₂,
          t.allocFilled (some n) (Edit.itemDef t n) = (created, t₂) ∧
          change = ⟨created, t₂.setBody n (.optional (some created) present), []⟩) := by
  unfold Tree.optionalChild at h
  obtain ⟨node, hget, h⟩ := Except.bind_eq_ok.1 h
  have hlookup := get_eq_ok.1 hget
  obtain ⟨-, -, rfl⟩ := lookup?_eq_some.1 hlookup
  split at h
  · next existing present hbody =>
      exact ⟨present, hlookup, .inl ⟨existing, hbody, (Except.ok.inj h).symm⟩⟩
  · next present hbody =>
      exact ⟨present, hlookup, .inr ⟨hbody, _, _, rfl, (Except.ok.inj h).symm⟩⟩
  · cases h

end Tree

/-- A node of a tree that is in order changed at most its list of parts, and its active parts are the
same. -/
structure Kept (t t' : Tree) (roots : List Branch) : Prop where
  grammar : t'.grammar = t.grammar
  inherits : t.Inherits t'
  live : ∀ x, t.Live x → t'.Live x
  definition : ∀ x ∈ idsAll roots, (t'.node x).definition = (t.node x).definition
  content : ∀ x ∈ idsAll roots, (t'.node x).content = (t.node x).content
  parent : ∀ x ∈ idsAll roots, (t'.node x).parent = (t.node x).parent
  active : ∀ x ∈ idsAll roots, (t'.node x).body.active = (t.node x).body.active

theorem Kept.refl (t : Tree) (roots : List Branch) : Kept t t roots :=
  ⟨rfl, ⟨rfl, fun _ => .refl _⟩, fun _ hx => hx, fun _ _ => rfl, fun _ _ => rfl, fun _ _ => rfl,
    fun _ _ => rfl⟩

theorem Kept.of_node {body : Body} (hgrammar : t'.grammar = t.grammar) (hinherits : t.Inherits t')
    (hlive : ∀ x, t.Live x → t'.Live x) (hnode : t'.node n = { t.node n with body := body })
    (hactive : body.active = (t.node n).body.active)
    (hrest : ∀ x ∈ idsAll roots, x ≠ n → t'.node x = t.node x) : Kept t t' roots := by
  have hsame : ∀ x ∈ idsAll roots, t'.node x = { t.node x with body := (t'.node x).body } ∧
      (t'.node x).body.active = (t.node x).body.active := by
    intro x hx
    by_cases hxn : x = n
    · subst hxn
      rw [hnode]
      exact ⟨rfl, hactive⟩
    · rw [hrest x hx hxn]
      exact ⟨rfl, rfl⟩
  exact ⟨hgrammar, hinherits, hlive, fun x hx => by rw [(hsame x hx).1],
    fun x hx => by rw [(hsame x hx).1], fun x hx => by rw [(hsame x hx).1],
    fun x hx => (hsame x hx).2⟩

namespace Tree.Formed

/-- Only a choice has alternatives. -/
theorem shape_choice {alternatives : List (Option NodeId)} {current : Option Nat}
    (h : t.Formed n) (hbody : (t.node n).body = .choice alternatives current) :
    ∃ defs, t.shapeOf n = .choice defs ∧ alternatives.length = defs.length ∧
      (∀ (i : Nat) (c : NodeId), alternatives[i]? = some (some c) →
        defs[i]? = some (t.node c).definition) ∧
      (current.isSome = true → (Body.currentOf alternatives current).isSome = true) := by
  cases hshape : t.shapeOf n with
  | choice defs =>
      obtain ⟨alternatives', current', hbody', hrest⟩ := (formed_choice_iff hshape).1 h
      rw [hbody] at hbody'
      cases hbody'
      exact ⟨defs, rfl, hrest⟩
  | _ =>
      unfold Formed at h
      simp [hshape, hbody] at h

/-- Only an optional has an optional part. -/
theorem shape_optional {child : Option NodeId} {present : Bool} (h : t.Formed n)
    (hbody : (t.node n).body = .optional child present) :
    ∃ item quantifier, t.shapeOf n = .optional item quantifier := by
  cases hshape : t.shapeOf n with
  | optional item quantifier => exact ⟨item, quantifier, rfl⟩
  | _ =>
      unfold Formed at h
      simp [hshape, hbody] at h

/-- A choice has the parts that its rule asks for with one more alternative. -/
theorem choice_set {alternatives : List (Option NodeId)} {current : Option Nat} (h : t.Formed n)
    (hbody : (t.node n).body = .choice alternatives current)
    (hcurrent : Body.currentOf (alternatives.set index (some created)) current =
      Body.currentOf alternatives current)
    (hnone : alternatives[index]? = some none) (hshape : t'.shapeOf n = t.shapeOf n)
    (hbody' : (t'.node n).body = .choice (alternatives.set index (some created)) current)
    (hkept : ∀ x ∈ (t.node n).body.owned, (t'.node x).definition = (t.node x).definition)
    (hdef : (t'.node created).definition = Edit.alternativeDef t n index) : t'.Formed n := by
  obtain ⟨defs, hshape', hlength, hdefs, hsome⟩ := h.shape_choice hbody
  have hindex : index < alternatives.length := (List.getElem?_eq_some_iff.1 hnone).1
  refine (formed_choice_iff (hshape.trans hshape')).2
    ⟨_, _, hbody', by rw [List.length_set, hlength], fun i c hc => ?_, by rwa [hcurrent]⟩
  by_cases hi : index = i
  · subst hi
    rw [List.getElem?_set_self hindex] at hc
    obtain rfl : created = c := by simpa using hc
    rw [hdef, Edit.alternativeDef, hshape']
    have hdefindex : index < defs.length := hlength ▸ hindex
    simp [List.getD_eq_getElem?_getD, List.getElem?_eq_getElem hdefindex]
  · rw [List.getElem?_set_ne hi] at hc
    rw [hdefs i c hc, hkept c]
    rw [hbody]
    exact List.mem_filterMap.2 ⟨some c, List.mem_of_getElem? hc, rfl⟩

end Tree.Formed

/-- Handles that take an empty place of a list. -/
theorem filterMap_set_perm {alternatives : List (Option NodeId)}
    (h : alternatives[index]? = some none) :
    ((alternatives.set index (some created)).filterMap fun c => c).Perm
      (created :: alternatives.filterMap fun c => c) := by
  induction alternatives generalizing index with
  | nil => simp at h
  | cons first alternatives ih =>
      cases index with
      | zero =>
          obtain rfl : first = none := by simpa using h
          simp
      | succ index =>
          have ih := ih (by simpa using h)
          cases first with
          | none => simpa using ih
          | some first => simpa using (ih.cons first).trans (.swap _ _ _)

/-- **The node of an alternative**: the node that is there, or a new one. -/
theorem Garden.alternative {change : Change NodeId} (h : Garden t roots)
    (hvalid : t.grammar.Valid) (hrank : t.grammar.Ranked)
    (hok : t.alternative n index = .ok change) :
    (∃ roots', Garden change.tree roots' ∧ roots'.map Branch.root = roots.map Branch.root) ∧
      Kept t change.tree roots ∧ change.notices = [] := by
  obtain ⟨alternatives, current, hlookup, hbody, ⟨existing, -, rfl⟩ |
    ⟨hnone, created, t₂, halloc, rfl⟩⟩ := alternative_ok hok
  · exact ⟨⟨roots, h, rfl⟩, .refl t roots, rfl⟩
  have hn : n ∈ idsAll roots := by
    rcases h.live_or_vacant hlookup with hn | ⟨-, hvacant⟩
    · exact hn
    · rw [hvacant.body] at hbody
      cases hbody
  have hformed := (h.sound n hn).formed
  -- the current alternative, if there is one, has another place
  have hcurrent : Body.currentOf (alternatives.set index (some created)) current =
      Body.currentOf alternatives current := by
    cases current with
    | none => rfl
    | some i =>
        have hne : index ≠ i := by
          rintro rfl
          obtain ⟨defs, -, -, -, hsome⟩ := hformed.shape_choice hbody
          have := hsome rfl
          simp [Body.currentOf, hnone] at this
        simp only [Body.currentOf, Option.bind_some, List.getElem?_set_ne hne]
  obtain ⟨hgarden, hgrammar, hinherits, hlive, hnode, hrest⟩ := h.adopt
    (.choice (alternatives.set index (some created)) current) hvalid hrank hn halloc
    (by rw [hbody]; exact filterMap_set_perm hnone) (by rw [hbody, Body.active, hcurrent]; rfl)
    (by rw [hbody]; exact id) (by rw [hbody]; rfl)
    (fun alternatives' current' hbody' => by
      cases hbody'
      exact ⟨alternatives, hbody⟩)
    (fun t' hshape hbody' hdefs hdef => hformed.choice_set hbody hcurrent hnone hshape hbody' hdefs hdef)
  refine ⟨hgarden, .of_node hgrammar hinherits hlive hnode ?_ hrest, rfl⟩
  rw [hbody, Body.active, hcurrent]
  rfl

/-- **The node of an optional part**: the node that is there, or a new one. -/
theorem Garden.optionalChild {change : Change NodeId} (h : Garden t roots)
    (hvalid : t.grammar.Valid) (hrank : t.grammar.Ranked) (hok : t.optionalChild n = .ok change) :
    (∃ roots', Garden change.tree roots' ∧ roots'.map Branch.root = roots.map Branch.root) ∧
      Kept t change.tree roots ∧ change.notices = [] := by
  obtain ⟨present, hlookup, ⟨existing, -, rfl⟩ | ⟨hbody, created, t₂, halloc, rfl⟩⟩ :=
    optionalChild_ok hok
  · exact ⟨⟨roots, h, rfl⟩, .refl t roots, rfl⟩
  have hn : n ∈ idsAll roots := by
    rcases h.live_or_vacant hlookup with hn | ⟨-, hvacant⟩
    · exact hn
    · rw [hvacant.body] at hbody
      cases hbody
  have hformed := (h.sound n hn).formed
  obtain ⟨item, quantifier, hshape⟩ := hformed.shape_optional hbody
  -- a part that is not there has no node yet
  obtain rfl : present = false := by
    obtain ⟨child, present', hbody', -, hpresent⟩ := (formed_optional_iff hshape).1 hformed
    rw [hbody] at hbody'
    cases hbody'
    cases present with
    | false => rfl
    | true => simp at hpresent
  obtain ⟨hgarden, hgrammar, hinherits, hlive, hnode, hrest⟩ := h.adopt
    (.optional (some created) false) hvalid hrank hn halloc
    (by rw [hbody]; exact .refl _) (by rw [hbody]; rfl) (by rw [hbody]; exact id)
    (by rw [hbody]; rfl) (fun alternatives current hbody' => by cases hbody')
    fun t' hshape' hbody' _ hdef => by
      refine (formed_optional_iff (hshape'.trans hshape)).2
        ⟨some created, false, hbody', fun c hc => ?_, by simp⟩
      obtain rfl := Option.some.inj hc
      rw [hdef, Edit.itemDef, hshape]
  refine ⟨hgarden, .of_node hgrammar hinherits hlive hnode ?_ hrest, rfl⟩
  rw [hbody]
  rfl

/-- A node that is made on first use leaves everything as it was, but for the list of parts that holds
it. -/
theorem Garden.made {change : Change NodeId} (h : Garden t roots) (hvalid : t.grammar.Valid)
    (hrank : t.grammar.Ranked)
    (hok : (∃ index, t.alternative n index = .ok change) ∨
      (∃ d, t.alternativeOf n d = .ok change) ∨ t.optionalChild n = .ok change) :
    (∃ roots', Garden change.tree roots' ∧ roots'.map Branch.root = roots.map Branch.root) ∧
      Kept t change.tree roots ∧ change.notices = [] := by
  rcases hok with ⟨index, hok⟩ | ⟨d, hok⟩ | hok
  · exact h.alternative hvalid hrank hok
  · obtain ⟨-, index, -, -, hok⟩ := alternativeOf_eq_ok.1 hok
    exact h.alternative hvalid hrank hok
  · exact h.optionalChild hvalid hrank hok

/-- **A new node without a parent.** -/
theorem Garden.create {change : Change NodeId} (h : Garden t roots) (hvalid : t.grammar.Valid)
    (hrank : t.grammar.Ranked) (hok : t.create d = .ok change) :
    (∃ u : Branch, u.root = change.value ∧ Garden change.tree (roots ++ [u])) ∧
      change.tree.grammar = t.grammar ∧ t.Inherits change.tree ∧
      (∀ x ∈ idsAll roots, change.tree.node x = t.node x) ∧ change.notices = [] := by
  obtain ⟨-, created, t₂, halloc, rfl⟩ := create_ok hok
  obtain ⟨u, freed, hu⟩ := allocFilled_sprouted hvalid hrank (h.apart.mono (by simp)) d halloc
  obtain rfl : u.root = created := by simpa using hu.roots
  have hr := hu.regrown.rework
  have hap : t.Apart (slotsAll roots ++ slotsAll []) := by simpa using h.apart
  have hgrove : Grove t₂ none (roots ++ [u]) := by
    have := hu.regrown.among (l := roots) (r := []) (by simpa using h.grove)
    simpa using this.grove
  refine ⟨⟨u, rfl, ⟨⟨fun i => ?_, hgrove.stands, hr.vacant h.vacant⟩, hgrove.sound⟩⟩, hr.grammar,
    hr.inherits, fun x hx => hr.slot_eq hap (index_mem_slotsAll hx), rfl⟩
  have hcount := hr.count i
  have := h.count i
  have := hr.size_le
  rw [slotsAll_nil, List.count_nil] at hcount
  rw [count_slotsAll_append]
  grind

/-- Other listeners leave a tree in order. -/
theorem Garden.relisten {f : Node → Node} (h : Garden t roots)
    (hf : ∀ m : Node, f m = { m with listeners := (f m).listeners }) (id : NodeId) :
    Garden (t.modify id f) roots ∧ ∀ x, (t.modify id f).node x =
      { t.node x with listeners := ((t.modify id f).node x).listeners } := by
  have hslot : ∀ i, (t.modify id f).slot i =
      { t.slot i with listeners := ((t.modify id f).slot i).listeners } := by
    intro i
    by_cases hi : i = id.index
    · subst hi
      by_cases hsize : id.index < t.slots.size
      · rw [slot_modify_self hsize]
        exact hf _
      · rw [slot_of_size_le (by rw [size_modify]; omega), slot_of_size_le (by omega)]
    · rw [slot_modify_of_ne hi]
  refine ⟨h.congr rfl (size_modify _ _ _) rfl (fun i => ?_) fun x _ => ?_, fun x => hslot x.index⟩
  · rw [hslot i]
    exact ⟨rfl, rfl, rfl, rfl⟩
  · rw [node_eq_slot, hslot]
    rfl

/-- A new listener leaves a tree in order. -/
theorem Garden.addListener {change : Change ListenerId} (h : Garden t roots)
    (hok : t.addListener n = .ok change) :
    change.tree.grammar = t.grammar ∧ Garden change.tree roots := by
  unfold Tree.addListener at hok
  obtain ⟨node, -, hok⟩ := Except.bind_eq_ok.1 hok
  obtain rfl := Except.ok.inj hok
  obtain ⟨hgarden, -⟩ :=
    h.relisten (f := fun m => { m with listeners := m.listeners ++ [t.nextListener] })
      (fun _ => rfl) n
  exact ⟨rfl, hgarden.congr rfl rfl rfl (fun _ => .refl _) fun _ _ => rfl⟩

/-- Taking a listener away leaves a tree in order. -/
theorem Garden.removeListener {change : Change Bool} {l : ListenerId} (h : Garden t roots)
    (hok : t.removeListener n l = .ok change) :
    change.tree.grammar = t.grammar ∧ t.Inherits change.tree ∧ Garden change.tree roots := by
  unfold Tree.removeListener at hok
  obtain ⟨node, hget, hok⟩ := Except.bind_eq_ok.1 hok
  obtain ⟨hsize, -⟩ := lookup?_eq_some.1 (get_eq_ok.1 hget)
  obtain rfl := Except.ok.inj hok
  obtain ⟨hgarden, hnode⟩ :=
    h.relisten (f := fun m => { m with listeners := m.listeners.filter (· != l) })
      (fun _ => rfl) n
  refine ⟨rfl, ⟨rfl, fun i => ?_⟩, hgarden⟩
  dsimp only
  by_cases hi : i = n.index
  · subst hi
    rw [slot_modify_self hsize]
    exact List.filter_sublist
  · rw [slot_modify_of_ne hi]

end Tessera
