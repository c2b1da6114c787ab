/-
**What fresh nodes show.**

A new node of a definition with a default content follows the split of that content: the text fits, so
nothing is left out.  A new node of any other definition holds no content.  The children of a sequence
are new nodes, too, unless the sequence itself has a default content, which decides about them.

Main definitions:

* `Tessera.Grammar.FreshView` — what a new node of a definition shows;
* `Tessera.Tree.Adds` — a node is new, and shows what new nodes of its definition show.

Main results:

* `Tessera.Tree.fillDefault_displays` — a node that is filled follows the split of its default content;
* `Tessera.Tree.allocFilled_shows` — **new nodes show their default contents, at every depth**;
* `Tessera.Session.fresh_run` — **no default content is dropped.**
-/

import Tessera.Proofs.Search.Defaults
import Tessera.Proofs.Tree.Stability
import Tessera.Proofs.Tree.Staleness

set_option autoImplicit false

namespace Tessera

open Branch Tessera.Tree

variable {g : Grammar} {t t' : Tree} {parent : Option NodeId} {id n created : NodeId} {d : DefId}
  {ds : List DefId} {b : Branch} {roots : List Branch} {freed : List Nat} {text : Text} {split : Split}
  {v : View}

/-! ### The views of new nodes -/

mutual

/-- What a new node of a definition shows: the split of the default content, or else no content and
what the new nodes show that come with it. -/
inductive Grammar.FreshView (g : Grammar) : DefId → View → Prop
  | default {d : DefId} {text : Text} {split : Split} (hdefault : g.defaultContent? d = some text)
      (hsplit : (Tessera.resolve g d text).result = .ok split) : FreshView g d (split.view g text d)
  | sequence {d : DefId} {items : List DefId} {vs : List View} (hnone : g.defaultContent? d = none)
      (hshape : g.shape d = .sequence items) (hparts : FreshViews g items vs) :
      FreshView g d (.node d none (.sequence items.length) vs)
  | single {d : DefId} (hnone : g.defaultContent? d = none)
      (hshape : ∀ items, g.shape d ≠ .sequence items) :
      FreshView g d (.node d none (Body.fresh (g.shape d)).selection [])

/-- What new nodes of several definitions show, one each. -/
inductive Grammar.FreshViews (g : Grammar) : List DefId → List View → Prop
  | nil : FreshViews g [] []
  | cons {d : DefId} {ds : List DefId} {v : View} {vs : List View} (hv : FreshView g d v)
      (hvs : FreshViews g ds vs) : FreshViews g (d :: ds) (v :: vs)

end

/-- The node is new in the tree `t'`, and shows what new nodes of its definition show. -/
structure Tree.Adds (t t' : Tree) (d : DefId) (id : NodeId) : Prop where
  new : ¬ t.Live id
  live : t'.Live id
  definition : t'.definition id = .ok d
  /-- A default content is there. -/
  filled : ∀ text, t.grammar.defaultContent? d = some text → t'.content id = .ok text
  /-- Without a default content there is none. -/
  unset : t.grammar.defaultContent? d = none → t'.content id = .error (.noContent id)
  shows : ∃ v, t.grammar.FreshView d v ∧ t'.Displays v id

/-- A new node has no active parts. -/
theorem Body.active_fresh (rule : Rule) : (Body.fresh rule).active = [] := by
  cases rule <;> rfl

/-! ### Filling new nodes -/

section

variable (hvalid : g.Valid) (hrank : g.Ranked) (hlimit : g.limits.recursionLimit = none)
  (hfit : g.DefaultsFit)
include hvalid hrank

namespace Tree

/-- A node that is filled follows the split of its default content. -/
theorem fillDefault_displays (hg : t.grammar = g) (hgrove : Grove t parent [b])
    (hd : (t.node b.root).definition = d) (hdefault : g.defaultContent? d = some text)
    (hsplit : (resolve g d text).result = .ok split) :
    (fillDefault d b.root t).Displays (split.view g text d) b.root := by
  obtain ⟨-, -, -, -, -, hdisplays⟩ := Edit.assigns hvalid hrank split ⟨t, []⟩ parent b hg hgrove
    (hd ▸ (split_fits hvalid hsplit).1)
  rw [hd] at hdisplays
  simpa only [fillDefault, hg, hdefault, hsplit] using hdisplays

include hlimit hfit

/-- A new node shows what new nodes show once it is filled. -/
theorem Sprouted.shows_filled (hg : t.grammar = g) (h : Sprouted t t' parent [id] [d] [b] freed)
    (hv : g.defaultContent? d = none → g.FreshView d v) (hshows : t'.Displays v id) :
    ∃ v, g.FreshView d v ∧ (fillDefault d id t').Displays v id := by
  obtain rfl : b.root = id := by simpa using h.roots
  have hgrammar : t'.grammar = g := h.regrown.rework.grammar.trans hg
  cases hdefault : g.defaultContent? d with
  | none =>
      refine ⟨v, hv hdefault, ?_⟩
      simpa only [fillDefault, hgrammar, hdefault] using hshows
  | some text =>
      obtain ⟨split, hsplit⟩ := hfit.accepts_default hvalid hlimit hdefault
      have hd : (t'.node b.root).definition = d := by simpa using h.definitions
      exact ⟨_, .default hdefault hsplit,
        fillDefault_displays hvalid hrank hgrammar h.regrown.grove hd hdefault hsplit⟩

omit hvalid hrank hlimit hfit in
/-- New nodes of several definitions show what each of them shows on its own. -/
theorem allocEach_shows {alloc : DefId → Tree → NodeId × Tree}
    (halloc : ∀ d ∈ ds, ∀ s : Tree, s.grammar = g → s.Apart [] →
      (∃ b freed, Sprouted s (alloc d s).2 parent [(alloc d s).1] [d] [b] freed) ∧
        ∃ v, g.FreshView d v ∧ (alloc d s).2.Displays v (alloc d s).1)
    (hg : t.grammar = g) (hap : t.Apart []) :
    ∃ bs freed vs, Sprouted t (allocEach alloc ds t).2 parent (allocEach alloc ds t).1 ds bs freed ∧
      g.FreshViews ds vs ∧ (allocEach alloc ds t).2.DisplayAll vs (allocEach alloc ds t).1 := by
  induction ds generalizing t with
  | nil => exact ⟨[], [], [], ⟨.refl (.nil hap), rfl, rfl⟩, .nil, trivial⟩
  | cons d ds ih =>
      obtain ⟨⟨b, freed, hb⟩, v, hv, hshows⟩ := halloc d List.mem_cons_self t hg hap
      obtain ⟨bs, freed', vs, hbs, hvs, hshowAll⟩ := ih (t := (alloc d t).2)
        (fun d hd => halloc d (List.mem_cons_of_mem _ hd)) (hb.regrown.rework.grammar.trans hg)
        (hb.regrown.grove.apart.mono (by simp))
      obtain ⟨hall, hsame⟩ := hb.cons hap hbs
      obtain hroot : b.root = (alloc d t).1 := by simpa using hb.roots
      have hmem : (alloc d t).1 ∈ idsAll [b] := by simpa [← hroot] using b.root_mem_ids
      exact ⟨b :: bs, freed ++ freed', v :: vs, hall, .cons hv hvs,
        hb.regrown.grove.displays_congr hsame hmem hshows, hshowAll⟩

/-- **New nodes show their default contents, at every depth.** -/
theorem allocWith_shows {rank : DefId → Nat} (hlt : ∀ d, ∀ e ∈ (g.rule d).eager, rank e < rank d)
    {fuel : Nat} (hfuel : rank d < fuel) (hg : t.grammar = g) (hap : t.Apart [])
    (parent : Option NodeId) :
    ∃ v, g.FreshView d v ∧
      (allocWith fillDefault fuel parent d t).2.Displays v
        (allocWith fillDefault fuel parent d t).1 := by
  have hsprouted : ∀ {fuel : Nat} {d : DefId}, rank d < fuel → ∀ s : Tree, s.grammar = g →
      s.Apart [] → ∀ parent, ∃ b freed, Sprouted s (allocWith fillDefault fuel parent d s).2 parent
        [(allocWith fillDefault fuel parent d s).1] [d] [b] freed := by
    intro fuel d hfuel s hs hap parent
    obtain ⟨b, freed, hb, -⟩ := allocWith_sprouted (P := False) hvalid hlt
      (fills_default hvalid hrank) (fun h => h.elim) hfuel hs hap parent
    exact ⟨b, freed, hb⟩
  induction fuel generalizing d t parent with
  | zero => omega
  | succ fuel ih =>
      rcases hoccupy : t.occupy (t.freshNode d parent) with ⟨id, s⟩
      obtain ⟨hr, hopened, hnode⟩ := occupy_opened hap rfl hoccupy
      have hgrammar : s.grammar = g := hr.grammar.trans hg
      by_cases hseq : ∃ items, g.shape d = .sequence items
      · obtain ⟨items, hitems⟩ := hseq
        have hbelow : ∀ e ∈ items, rank e < fuel := by
          intro e he
          have := Grammar.Ranked.item_lt hvalid hlt hitems he
          omega
        -- the children come first, and stay as they are when the sequence takes them up
        obtain ⟨cs, freed, vs, hcs, hvs, hshowAll⟩ := allocEach_shows
          (fun e he s hs hap' => ⟨hsprouted (hbelow e he) s hs hap' (some id),
            ih (hbelow e he) hs hap' (some id)⟩) hgrammar (hopened.apart.mono (by simp))
        simp only [allocWith, hoccupy, hgrammar, hitems]
        generalize hchildren : allocEach (allocWith fillDefault fuel (some id)) items s = made at *
        obtain ⟨children, s'⟩ := made
        obtain ⟨hre, hself⟩ := hopened.step_all hcs.regrown
        obtain ⟨-, hself', hparts⟩ := hre.opened.setBody (.sequence children)
        rw [hself, hnode] at hself'
        obtain ⟨hfirst, -⟩ := sequence_sprouted (P := False) hap (by rw [hg, hitems]) hoccupy hcs
          (fun h => h.elim)
        have hlength : children.length = items.length := by
          rw [← hcs.definitions, List.length_map]
        have hshows : (s'.setBody id (.sequence children)).Displays
            (.node d none (.sequence items.length) vs) id := by
          rw [Displays, hself', ← hlength]
          refine ⟨rfl, rfl, rfl, hcs.regrown.grove.displayAll_congr hparts (fun c hc => ?_) hshowAll⟩
          have hc : c ∈ cs.map Branch.root := by rwa [hcs.roots]
          exact Grove.root_mem hc
        exact hfirst.shows_filled hvalid hrank hlimit hfit hg
          (fun hnone => .sequence hnone hitems hvs) hshows
      · have hnot : ∀ items, g.shape d ≠ .sequence items := fun items hitems => hseq ⟨items, hitems⟩
        obtain ⟨hfirst, -⟩ := single_sprouted hap (fun items => by rw [hg]; exact hnot items) hoccupy
        have heq : allocWith fillDefault (fuel + 1) parent d t = (id, fillDefault d id s) := by
          simp only [allocWith, hoccupy, hgrammar]
        rw [heq]
        have hshows : s.Displays (.node d none (Body.fresh (g.shape d)).selection []) id := by
          rw [Displays, hnode, ← hg]
          refine ⟨rfl, rfl, rfl, ?_⟩
          change s.DisplayAll [] (Body.fresh (t.grammar.shape d)).active
          rw [Body.active_fresh]
          trivial
        exact hfirst.shows_filled hvalid hrank hlimit hfit hg (fun hnone => .single hnone hnot) hshows

/-- A new node with its default content shows what new nodes show. -/
theorem allocFilled_shows (hg : t.grammar = g) (hap : t.Apart [])
    (h : t.allocFilled parent d = (id, t')) : ∃ v, g.FreshView d v ∧ t'.Displays v id := by
  have ⟨rank, hle, hlt⟩ := hrank
  have hfuel : rank d < t.allocFuel := by
    have := hle d
    rw [allocFuel, hg]
    omega
  have := allocWith_shows hvalid hrank hlimit hfit hlt hfuel hg hap parent
  rw [allocFilled] at h
  rwa [h] at this

end Tree

end

/-! ### Calls that make new nodes -/

/-- A node that follows a split shows the text of the split. -/
theorem Split.view_eq (g : Grammar) (text : Text) (split : Split) (d : DefId) :
    ∃ selection parts,
      split.view g text d = .node d (some (split.content text)) selection parts := by
  cases split <;> exact ⟨_, _, by rw [Split.view]; rfl⟩

/-- A new node shows its definition, and its default content if there is one. -/
theorem Grammar.FreshView.node (hvalid : g.Valid) (h : g.FreshView d v) :
    ∃ content selection parts, v = .node d content selection parts ∧
      content = g.defaultContent? d := by
  cases h with
  | @default _ text split hdefault hsplit =>
      obtain ⟨selection, parts, heq⟩ := Split.view_eq g text split d
      rw [(split_fits hvalid hsplit).2] at heq
      exact ⟨_, selection, parts, heq, hdefault.symm⟩
  | sequence hnone hshape hparts => exact ⟨none, _, _, rfl, hnone.symm⟩
  | single hnone hshape => exact ⟨none, _, _, rfl, hnone.symm⟩

namespace Tree

theorem Adds.of_shows (hvalid : t.grammar.Valid) (hnew : ¬ t.Live id) (hlive : t'.Live id)
    (hv : t.grammar.FreshView d v) (hshows : t'.Displays v id) : t.Adds t' d id := by
  obtain ⟨content, selection, parts, rfl, hcontent⟩ := hv.node hvalid
  have ⟨hd, hw, _⟩ := hshows
  refine ⟨hnew, hlive, by rw [hlive.definition_eq, hd], fun text hdefault => ?_, fun hnone => ?_,
    _, hv, hshows⟩
  · rw [hlive.content_eq_ok, hw, hcontent, hdefault]
  · exact hlive.content_eq_error (by rw [hw, hcontent, hnone])

end Tree

namespace Garden

variable (h : Garden t roots) (hvalid : t.grammar.Valid) (hrank : t.grammar.Ranked)
  (hlimit : t.grammar.limits.recursionLimit = none) (hfit : t.grammar.DefaultsFit)
include h hvalid hrank hlimit hfit

theorem create_adds {change : Change NodeId} (hok : t.create d = .ok change) :
    t.Adds change.tree d change.value := by
  have hshows : ∃ v, t.grammar.FreshView d v ∧ change.tree.Displays v change.value := by
    obtain ⟨-, created, t₂, halloc, rfl⟩ := create_ok hok
    exact allocFilled_shows hvalid hrank hlimit hfit rfl (h.apart.mono (by simp)) halloc
  obtain ⟨v, hv, hshows⟩ := hshows
  exact .of_shows hvalid (not_live_create hok) (h.live_create hvalid hrank hok) hv hshows

/-- A new node below another shows what new nodes show once the other has taken it up. -/
theorem shows_setBody {t₂ : Tree} (hn : n ∈ idsAll roots)
    (halloc : t.allocFilled (some n) d = (created, t₂)) (body : Body) :
    ∃ v, t.grammar.FreshView d v ∧ (t₂.setBody n body).Displays v created := by
  obtain ⟨b, c, hb, hin, rfl, hc⟩ := h.exists_branch hn
  obtain ⟨n, ps⟩ := c
  have hap : t.Apart [] := h.apart.mono (by simp)
  obtain ⟨u, freed, hu⟩ := allocFilled_sprouted hvalid hrank hap d halloc
  obtain ⟨v, hv, hshows⟩ := allocFilled_shows hvalid hrank hlimit hfit rfl hap halloc
  obtain ⟨-, -, -, hfresh⟩ :=
    (Opened.of_grove (h.grove_of_inside hb hin hc)).1.sprout hu.regrown body
  obtain rfl : u.root = created := by simpa using hu.roots
  exact ⟨v, hv, hu.regrown.grove.displays_congr hfresh (by simpa using u.root_mem_ids) hshows⟩

/-- The node of an alternative was there, or it is a new node of the definition of the alternative. -/
theorem alternative_adds {index : Nat} {change : Change NodeId}
    (hok : t.alternative n index = .ok change) :
    change.tree = t ∧ t.Live change.value ∨ ∃ defs d, t.shapeOf n = .choice defs ∧
      defs[index]? = some d ∧ t.Adds change.tree d change.value := by
  obtain ⟨hlive, -⟩ := h.answered_alternative hvalid hrank hok
  obtain ⟨alternatives, current, hlookup, hbody, ⟨existing, -, rfl⟩ |
    ⟨hnone, created, t₂, halloc, rfl⟩⟩ := alternative_ok hok
  · exact .inl ⟨rfl, hlive⟩
  have hn : n ∈ idsAll roots := h.live_iff.1 (h.live_of_body hlookup hbody (by simp))
  obtain ⟨defs, hshape, hlength, -⟩ := (h.sound n hn).formed.shape_choice hbody
  have hindex : index < defs.length := by
    rw [← hlength]
    exact (List.getElem?_eq_some_iff.1 hnone).1
  have hd : Edit.alternativeDef t n index = defs[index] := by
    simp [Edit.alternativeDef, hshape, List.getD_eq_getElem?_getD, List.getElem?_eq_getElem hindex]
  obtain ⟨v, hv, hshows⟩ := h.shows_setBody hvalid hrank hlimit hfit hn halloc
    (.choice (alternatives.set index (some created)) current)
  rw [hd] at hv
  exact .inr ⟨defs, _, hshape, List.getElem?_eq_getElem hindex,
    .of_shows hvalid (allocFilled_new halloc).1 hlive hv hshows⟩

theorem alternativeOf_adds {change : Change NodeId} (hok : t.alternativeOf n d = .ok change) :
    change.tree = t ∧ t.Live change.value ∨ t.Adds change.tree d change.value := by
  obtain ⟨alternatives, index, hshape, hindex, hok⟩ := alternativeOf_eq_ok.1 hok
  rcases h.alternative_adds hvalid hrank hlimit hfit hok with hsame | ⟨defs, d', hshape', hd', hadds⟩
  · exact .inl hsame
  · obtain rfl : alternatives = defs := by simpa [hshape] using hshape'
    obtain ⟨hlt, hd, -⟩ := List.findIdx?_eq_some_iff_getElem.1 hindex
    obtain rfl : d' = d := by
      rw [List.getElem?_eq_getElem hlt] at hd'
      rw [← Option.some.inj hd']
      exact beq_iff_eq.1 hd
    exact .inr hadds

/-- The node of an optional part was there, or it is a new node of the definition of the part. -/
theorem optionalChild_adds {change : Change NodeId} (hok : t.optionalChild n = .ok change) :
    change.tree = t ∧ t.Live change.value ∨ ∃ item quantifier,
      t.shapeOf n = .optional item quantifier ∧ t.Adds change.tree item change.value := by
  obtain ⟨hlive, -⟩ := h.answered_optionalChild hvalid hrank hok
  obtain ⟨present, hlookup, ⟨existing, -, rfl⟩ | ⟨hbody, created, t₂, halloc, rfl⟩⟩ :=
    optionalChild_ok hok
  · exact .inl ⟨rfl, hlive⟩
  have hn : n ∈ idsAll roots := h.live_iff.1 (h.live_of_body hlookup hbody (by simp))
  obtain ⟨item, quantifier, hshape⟩ := (h.sound n hn).formed.shape_optional hbody
  obtain ⟨v, hv, hshows⟩ := h.shows_setBody hvalid hrank hlimit hfit hn halloc
    (.optional (some created) present)
  rw [Edit.itemDef, hshape] at hv
  exact .inr ⟨item, quantifier, hshape, .of_shows hvalid (allocFilled_new halloc).1 hlive hv hshows⟩

end Garden

/-- **No default content is dropped.**  For every grammar without a recursion limit: the default content
of a definition is its own, or else that of the definition it stands for, and the definition accepts it.
In every tree in use, a node that is made by `create`, or on the first use of an alternative or of an
optional part, holds the default content of its definition and follows its split, and holds no content
when there is none; the same holds of the children that come with it, at every depth, unless a default
content above decides about them. -/
theorem Session.fresh_run {draft : Draft} (hbuild : draft.build = .ok g)
    (hlimit : g.limits.recursionLimit = none) {ops : List Operation}
    (hrun : (Session.run g ops).tree = t) :
    (∀ d, g.defaultContent? d =
      match g.rule d with
      | .withDefault content _ => some content
      | rule => rule.target?.bind g.defaultContent?) ∧
    (∀ d text, g.defaultContent? d = some text → ∃ split, (resolve g d text).result = .ok split) ∧
    (∀ d change, t.create d = .ok change → t.Adds change.tree d change.value) ∧
    (∀ n index change, t.alternative n index = .ok change →
      change.tree = t ∧ t.Live change.value ∨ ∃ defs d, t.shapeOf n = .choice defs ∧
        defs[index]? = some d ∧ t.Adds change.tree d change.value) ∧
    (∀ n d change, t.alternativeOf n d = .ok change →
      change.tree = t ∧ t.Live change.value ∨ t.Adds change.tree d change.value) ∧
    (∀ n change, t.optionalChild n = .ok change →
      change.tree = t ∧ t.Live change.value ∨ ∃ item quantifier,
        t.shapeOf n = .optional item quantifier ∧ t.Adds change.tree item change.value) := by
  have hvalid := Draft.build_valid hbuild
  have hrank := Draft.build_ranked hbuild
  have hfit := Draft.build_defaultsFit hbuild
  subst hrun
  obtain ⟨hgrammar, -, roots, hgarden, -⟩ := Session.tended_run hvalid hrank ops
  generalize (Session.run g ops).tree = t at *
  subst hgrammar
  refine ⟨Grammar.defaultContent?_eq hbuild, fun d text hdefault => ?_, fun d change hok => ?_,
    fun n index change hok => ?_, fun n d change hok => ?_, fun n change hok => ?_⟩
  · exact hfit.accepts_default hvalid hlimit hdefault
  · exact hgarden.create_adds hvalid hrank hlimit hfit hok
  · exact hgarden.alternative_adds hvalid hrank hlimit hfit hok
  · exact hgarden.alternativeOf_adds hvalid hrank hlimit hfit hok
  · exact hgarden.optionalChild_adds hvalid hrank hlimit hfit hok

/-- A comma and a letter are made together: the comma holds its default content, which is found behind
another name of it, and the letter holds none. -/
theorem Session.fresh_run_list :
    listDraft.build = .ok listGrammar ∧
      ∃ change c c', (Tree.empty listGrammar).create 5 = .ok change ∧
        (change.tree.node change.value).content = none ∧
        (change.tree.node change.value).body.active = [c, c'] ∧
        (change.tree.node c).content = some [','] ∧ (change.tree.node c').content = none := by
  obtain ⟨change, hok⟩ : ∃ change, (Tree.empty listGrammar).create 5 = .ok change := ⟨_, rfl⟩
  have hempty : (Session.run listGrammar []).tree = Tree.empty listGrammar := rfl
  obtain ⟨-, -, hcreate, -⟩ := fresh_run listDraft_build rfl hempty
  have hadds := hcreate 5 change hok
  obtain ⟨v, hv, hshows⟩ := hadds.shows
  have hnone : listGrammar.defaultContent? 5 = none := rfl
  have hshape : listGrammar.shape 5 = .sequence [2, 3] := rfl
  cases hv with
  | default hdefault => cases hnone.symm.trans hdefault
  | single _ hnot => exact absurd hshape (hnot _)
  | @sequence _ items vs _ hitems hparts =>
      obtain rfl : [2, 3] = items := Rule.sequence.inj (hshape.symm.trans hitems)
      obtain _ | ⟨hcomma, _ | ⟨hletter, _ | _⟩⟩ := hparts
      obtain ⟨_, _, _, rfl, rfl⟩ := hcomma.node (Draft.build_valid listDraft_build)
      obtain ⟨_, _, _, rfl, rfl⟩ := hletter.node (Draft.build_valid listDraft_build)
      obtain ⟨-, hcontent, -, hactive⟩ := hshows
      generalize hchildren : (change.tree.node change.value).body.active = children at hactive
      match children, hactive with
      | [c, c'], ⟨⟨_, hc, _⟩, ⟨_, hc', _⟩, _⟩ =>
          exact ⟨listDraft_build, change, c, c', hok, hcontent, hchildren, hc, hc'⟩

end Tessera
