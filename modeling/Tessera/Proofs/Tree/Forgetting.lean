/-
**New contents forget the past.**

A node that receives a new content shows what the split of the text says, whatever was read, inserted,
removed or made below it before.  So it shows the same as a node of the same definition that was just
created, in a tree of its own, and received the same text.

For that node to be there, the definition of a live node must be one of the grammar: those of parts
are mentioned by the rule of the node above, and those of created nodes were looked up.

Main results:

* `Tessera.Session.defined_run` — the definitions of live nodes are those of the grammar;
* `Tessera.Garden.outline_eq` — nodes that show the same have the same outline;
* `Tessera.Session.setContent_forgets` — **a new content leaves nothing of the past**.
-/

import Tessera.Proofs.Tree.Coherence

set_option autoImplicit false

namespace Tessera

open Branch Tessera.Tree

variable {t t' t₁ : Tree} {n c x : NodeId} {g : Grammar} {roots roots' : List Branch}
  {b b' : Branch} {ps : List NodeId} {freed : List Nat} {parent : Option NodeId} {text : Text}
  {d : DefId}

/-! ### Definitions of live nodes -/

/-- The rule of a node mentions the definitions of its parts. -/
theorem Tree.Formed.definition_mem (h : t.Formed n) (hc : c ∈ (t.node n).body.owned) :
    (t.node c).definition ∈ (t.shapeOf n).references := by
  unfold Formed at h
  split at h
  · next items hshape =>
      obtain ⟨children, hbody, rfl⟩ := h
      rw [hbody] at hc
      rw [hshape]
      exact List.mem_map_of_mem hc
  · next defs hshape =>
      obtain ⟨alternatives, current, hbody, -, hdefs, -⟩ := h
      rw [hbody] at hc
      obtain ⟨_, hmem, rfl⟩ := List.mem_filterMap.1 hc
      obtain ⟨i, hi⟩ := List.mem_iff_getElem?.1 hmem
      rw [hshape]
      exact List.mem_of_getElem? (hdefs i c hi)
  · next item quantifier hshape =>
      obtain ⟨child, present, hbody, hdef, -⟩ := h
      rw [hbody] at hc
      rw [hshape, hdef c (Option.mem_toList.1 hc)]
      exact List.mem_singleton_self _
  · next item repetition hshape =>
      obtain ⟨items, hbody, hdefs⟩ := h
      rw [hbody] at hc
      rw [hshape, hdefs c hc]
      exact List.mem_singleton_self _
  · next item separator default repetition hshape =>
      obtain ⟨items, separators, hbody, hitems, hseparators, -⟩ := h
      rw [hbody] at hc
      rw [hshape]
      rcases List.mem_append.1 hc with hc | hc
      · rw [hitems c hc]
        exact List.mem_cons_self
      · rw [hseparators c hc]
        exact List.mem_cons_of_mem _ (List.mem_singleton_self _)
  · rw [h] at hc
    cases hc

/-- All definitions of a branch are those of the grammar if that of the root is. -/
theorem Branch.Stands.defined (h : b.Stands t parent) (hvalid : t.grammar.Valid)
    (hformed : ∀ x ∈ b.ids, t.Formed x) (hroot : (t.node b.root).definition < t.grammar.size) :
    ∀ x ∈ b.ids, (t.node x).definition < t.grammar.size := by
  induction h with
  | @fork _ id parts _ _ _ howned _ ih =>
      intro x hx
      rcases List.mem_cons.1 hx with rfl | hx
      · exact hroot
      · obtain ⟨p, hp, hx⟩ := mem_idsAll.1 hx
        have hpart : p.root ∈ (t.node id).body.owned := howned ▸ List.mem_map_of_mem hp
        refine ih p hp (fun y hy => hformed y ?_) ?_ x hx
        · exact List.mem_cons_of_mem _ (mem_idsAll.2 ⟨p, hp, hy⟩)
        · exact hvalid.references_shape ((hformed id List.mem_cons_self).definition_mem hpart)

/-- An edit of a branch leaves the definition of every root of the tree as it is. -/
theorem Edited.definition_root (h : Edited t t₁ t' roots roots' b b' ps freed)
    (hx : x ∈ roots.map Branch.root) : (t'.node x).definition = (t.node x).definition := by
  obtain ⟨r, hr, rfl⟩ := List.mem_map.1 hx
  have hmem : r.root ∈ idsAll roots := mem_idsAll.2 ⟨r, hr, r.root_mem_ids⟩
  by_cases hin : r.root ∈ b.ids
  · -- a root that belongs to the branch is the root of the branch
    have heq : r.root = b.root := by
      rcases h.stands.owner hin with heq | ⟨p, -, hparent, -⟩
      · exact heq
      · rw [(h.garden.stands r hr).parent_eq] at hparent
        cases hparent
    obtain ⟨a, ha, hinside⟩ := h.inside
    have hedited := (h.regrown.persists (h.garden.grove_of_inside ha hinside h.stands)
      (by simpa using b.root_mem_ids) (h.spared.root b (by simp))).1.definition
    rw [heq]
    exact (h.retold.stays b.root.index).definition.trans hedited
  · exact (h.retold_outside hmem hin).1.definition

theorem Revised.definition_root {notices ns : List Notice}
    (h : Revised t t₁ t' roots roots' n ps notices ns) (hx : x ∈ roots.map Branch.root) :
    (t'.node x).definition = (t.node x).definition := by
  obtain ⟨c, c', freed, -, hedited⟩ := h.edited
  exact hedited.definition_root hx

/-- A created node has the definition that was asked for, which is one of the grammar. -/
theorem Tree.create_definition {change : Change NodeId} (hvalid : t.grammar.Valid)
    (hrank : t.grammar.Ranked) (hap : t.Apart []) (hok : t.create d = .ok change) :
    d < t.grammar.size ∧ (change.tree.node change.value).definition = d := by
  obtain ⟨hd, created, t₂, halloc, rfl⟩ := create_ok hok
  obtain ⟨u, freed, hu⟩ := allocFilled_sprouted hvalid hrank hap d halloc
  exact ⟨hd, by simpa using hu.definitions⟩

namespace Garden

variable (h : Garden t roots) (hvalid : t.grammar.Valid) (hrank : t.grammar.Ranked)
include h hvalid hrank

/-- A call leaves the definition of every root of the tree as it is. -/
theorem definition_perform {op : Operation} {change : Change Answer}
    (hok : t.perform op = .ok change) (hx : x ∈ roots.map Branch.root) :
    (change.tree.node x).definition = (t.node x).definition := by
  have hmem : x ∈ idsAll roots := Grove.root_mem hx
  cases op with
  | create d =>
      obtain ⟨c, hc, -, htree, -⟩ := Change.map_ok hok
      obtain ⟨-, -, -, hsame, -⟩ := h.create hvalid hrank hc
      rw [← htree, hsame x hmem]
  | setContent n text =>
      obtain ⟨c, hc, -, htree, -⟩ := Change.map_ok hok
      obtain ⟨split, hlookup, -⟩ := setContent_ok hc
      rw [← htree]
      rcases h.live_or_vacant hlookup with hn | ⟨hfree, -⟩
      · obtain ⟨t₁, roots', ps, ns, hrevised, -⟩ := h.setContent hvalid hrank hn hc
        exact hrevised.definition_root hx
      · obtain ⟨hr, -⟩ := h.setContent_vacant hvalid hfree hc
        exact (hr.stays _).definition
  | insert n index text =>
      obtain ⟨c, hc, -, htree, -⟩ := Change.map_ok hok
      obtain ⟨-, t₁, roots', ps, ns, new, hrevised, -⟩ := h.insert hvalid hrank hc
      exact htree ▸ hrevised.definition_root hx
  | push n text =>
      obtain ⟨c, hc, -, htree, -⟩ := Change.map_ok hok
      obtain ⟨items, -, hinsert⟩ := push_ok hc
      obtain ⟨-, t₁, roots', ps, ns, new, hrevised, -⟩ := h.insert hvalid hrank hinsert
      exact htree ▸ hrevised.definition_root hx
  | remove n index =>
      obtain ⟨c, hc, -, htree, -⟩ := Change.map_ok hok
      obtain ⟨-, t₁, roots', ps, new, hrevised, -⟩ := h.remove hc
      exact htree ▸ hrevised.definition_root hx
  | alternative n index =>
      obtain ⟨c, hc, -, htree, -⟩ := Change.map_ok hok
      exact htree ▸ (h.made hvalid hrank (.inl ⟨index, hc⟩)).2.1.definition x hmem
  | alternativeOf n d =>
      obtain ⟨c, hc, -, htree, -⟩ := Change.map_ok hok
      exact htree ▸ (h.made hvalid hrank (.inr (.inl ⟨d, hc⟩))).2.1.definition x hmem
  | optionalChild n =>
      obtain ⟨c, hc, -, htree, -⟩ := Change.map_ok hok
      exact htree ▸ (h.made hvalid hrank (.inr (.inr hc))).2.1.definition x hmem
  | addListener n =>
      obtain ⟨c, hc, -, htree, -⟩ := Change.map_ok hok
      obtain ⟨node, -, hc⟩ := Except.bind_eq_ok.1 hc
      obtain rfl := Except.ok.inj hc
      have hnode := (h.relisten (f := fun m => { m with listeners := m.listeners ++ [t.nextListener] })
        (fun _ => rfl) n).2 x
      have hdefinition := congrArg Node.definition hnode
      exact htree ▸ hdefinition
  | removeListener n l =>
      obtain ⟨c, hc, -, htree, -⟩ := Change.map_ok hok
      obtain ⟨node, -, hc⟩ := Except.bind_eq_ok.1 hc
      obtain rfl := Except.ok.inj hc
      have hnode := (h.relisten (f := fun m => { m with listeners := m.listeners.filter (· != l) })
        (fun _ => rfl) n).2 x
      have hdefinition := congrArg Node.definition hnode
      exact htree ▸ hdefinition

end Garden

namespace Session

variable {s : Session}

/-- A call keeps the definitions of created nodes among those of the grammar. -/
theorem Tended.defined_step (h : Tended g s) (hvalid : g.Valid) (hrank : g.Ranked)
    (hdefined : ∀ r ∈ s.created, (s.tree.node r).definition < g.size) (op : Operation) :
    ∀ r ∈ (s.step op).created, ((s.step op).tree.node r).definition < g.size := by
  obtain ⟨rfl, -, roots, hgarden, hroots⟩ := h
  unfold Session.step
  cases hok : s.tree.perform op with
  | error fault => exact hdefined
  | ok change =>
      intro r hr
      rcases List.mem_append.1 hr with hr | hr
      · rw [hgarden.definition_perform hvalid hrank hok (hroots ▸ hr)]
        exact hdefined r hr
      · -- only a call of create makes a node without a parent
        cases op with
        | create d =>
            obtain ⟨c, hc, hvalue, htree, -⟩ := Change.map_ok hok
            rw [← hvalue] at hr
            obtain rfl : r = c.value := by simpa [createdBy] using hr
            obtain ⟨hd, hdefinition⟩ :=
              create_definition hvalid hrank (hgarden.apart.mono (by simp)) hc
            dsimp only
            rw [← htree, hdefinition]
            exact hd
        | _ => simp [createdBy] at hr

/-- **The definitions of the live nodes of a tree in use are those of the grammar.** -/
theorem defined_run (hvalid : g.Valid) (hrank : g.Ranked) (ops : List Operation)
    (hn : (run g ops).tree.Live n) : ((run g ops).tree.node n).definition < g.size := by
  have hrun : ∀ (ops : List Operation) (s : Session), Tended g s →
      (∀ r ∈ s.created, (s.tree.node r).definition < g.size) →
      ∀ r ∈ (ops.foldl Session.step s).created,
        ((ops.foldl Session.step s).tree.node r).definition < g.size := by
    intro ops
    induction ops with
    | nil => exact fun s _ hs => hs
    | cons op ops ih =>
        exact fun s hs hdefined => ih _ (hs.step hvalid hrank op)
          (hs.defined_step hvalid hrank hdefined op)
  have hcreated := hrun ops _ (tended_empty g) (by simp)
  obtain ⟨hgrammar, -, roots, hgarden, hroots⟩ := tended_run hvalid hrank ops
  obtain ⟨b, hb, hmem⟩ := mem_idsAll.1 (hgarden.live_iff.1 hn)
  have hroot : ((run g ops).tree.node b.root).definition < g.size :=
    hcreated b.root (hroots ▸ List.mem_map_of_mem hb)
  have := (hgarden.stands b hb).defined (by rwa [hgrammar])
    (fun x hx => (hgarden.sound x (mem_idsAll.2 ⟨b, hb, hx⟩)).formed) (by rwa [hgrammar]) n hmem
  rwa [hgrammar] at this

end Session

/-! ### Outlines -/

/-- The outline of a node goes as deep as what the node shows. -/
theorem Garden.height_le {v : View} (h : Garden t roots) (hn : t.Live n) (hv : t.Displays v n) :
    v.height ≤ t.slots.size + 1 := by
  obtain ⟨b, c, hb, hin, rfl, hc⟩ := h.exists_branch (h.live_iff.1 hn)
  have hle := hc.height_le hv
  have hslots := (h.grove_of_inside hb hin hc).apart.length_le
  rw [slotsAll, List.length_map, idsAll_cons, idsAll_nil, List.append_nil] at hslots
  omega

/-- **Nodes that show the same have the same outline**, in whatever trees they are. -/
theorem Garden.outline_eq {v : View} {n' : NodeId} (h : Garden t roots) (h' : Garden t' roots')
    (hgrammar : t'.grammar = t.grammar) (hn : t.Live n) (hn' : t'.Live n') (hv : t.Displays v n)
    (hv' : t'.Displays v n') : ∃ s, t.outline n = .ok s ∧ t'.outline n' = .ok s := by
  have hlines := hv.outlineLines_eq hgrammar 0 hv' (h.height_le hn hv) (h'.height_le hn' hv')
  refine ⟨_, by rw [outline, hn.get_eq]; rfl, ?_⟩
  rw [outline, hn'.get_eq, hlines]
  rfl

/-! ### New contents -/

/-- A live node that receives a new content stays live and shows what the split of the text says. -/
theorem Garden.displays_setContent {change : Change Unit} (h : Garden t roots)
    (hvalid : t.grammar.Valid) (hrank : t.grammar.Ranked) (hn : t.Live n)
    (hok : (t.setContent n text).result = .ok change) :
    ∃ split roots', (resolve t.grammar (t.node n).definition text).result = .ok split ∧
      change.tree.grammar = t.grammar ∧ Garden change.tree roots' ∧ change.tree.Live n ∧
      change.tree.Displays (split.view t.grammar text (t.node n).definition) n := by
  obtain ⟨t₁, roots', ps, ns, hrevised, -, -, -, -, split, hsplit, hdisplays⟩ :=
    h.setContent hvalid hrank (h.live_iff.1 hn) hok
  obtain ⟨hgarden, -, hgrammar, -⟩ := hrevised.garden
  obtain ⟨c, c', freed, rfl, hedited⟩ := hrevised.edited
  have hlive : c.root ∈ idsAll roots' :=
    (hedited.mem_iff _).2 (.inl (hedited.root ▸ c'.root_mem_ids))
  exact ⟨split, roots', hsplit, hgrammar, hgarden, hgarden.live_iff.2 hlive, hdisplays⟩

/-- **A new content leaves nothing of the past.**  Whatever calls were made before, a live node of a
tree in use that receives a new content shows the same as a node that was created for its definition in
a new tree and received the same text: the kinds, definitions and contents of all nodes that make up
the content, what is selected in them and how many parts they have.  So both have the same outline. -/
theorem Session.setContent_forgets {draft : Draft} (hbuild : draft.build = .ok g)
    {ops : List Operation} (hrun : (Session.run g ops).tree = t) (hn : t.Live n)
    {change : Change Unit} (hok : (t.setContent n text).result = .ok change) :
    ∃ created renewed, (Tree.empty g).create (t.node n).definition = .ok created ∧
      (created.tree.setContent created.value text).result = .ok renewed ∧
      (∃ v, change.tree.Displays v n ∧ renewed.tree.Displays v created.value) ∧
      ∃ s, change.tree.outline n = .ok s ∧ renewed.tree.outline created.value = .ok s := by
  have hvalid := Draft.build_valid hbuild
  have hrank := Draft.build_ranked hbuild
  subst hrun
  have hdefined := Session.defined_run hvalid hrank ops hn
  obtain ⟨hgrammar, -, roots, hgarden, -⟩ := Session.tended_run hvalid hrank ops
  generalize (Session.run g ops).tree = t at *
  obtain ⟨split, roots', hsplit, hgrammar', hgarden', hlive', hdisplays⟩ :=
    hgarden.displays_setContent (hgrammar ▸ hvalid) (hgrammar ▸ hrank) hn hok
  rw [hgrammar] at hsplit hgrammar' hdisplays
  -- the node of the new tree
  obtain ⟨-, -, roots₀, hempty, -⟩ := Session.tended_empty g
  obtain ⟨created, hcreate⟩ : ∃ created,
      (Tree.empty g).create (t.node n).definition = .ok created := by
    have hcontains : (Tree.empty g).grammar.contains (t.node n).definition = true :=
      decide_eq_true hdefined
    rw [Tree.create, if_pos hcontains]
    exact ⟨_, rfl⟩
  obtain ⟨⟨u, hu, hfresh⟩, hgrammar₁, -⟩ := hempty.create hvalid hrank hcreate
  have hgrammar₁ : created.tree.grammar = g := hgrammar₁
  have hdefinition : (created.tree.node created.value).definition = (t.node n).definition :=
    (create_definition hvalid hrank (hempty.apart.mono (by simp)) hcreate).2
  have hlive : created.tree.Live created.value :=
    hfresh.live_iff.2 (mem_idsAll.2 ⟨u, by simp, hu ▸ u.root_mem_ids⟩)
  have hrenew := setContent_of_split (get_eq_ok.1 hlive.get_eq) (by rwa [hgrammar₁, hdefinition])
  obtain ⟨split', roots₂, hsplit', hgrammar₂, hgarden₂, hlive₂, hdisplays₂⟩ :=
    hfresh.displays_setContent (by rwa [hgrammar₁]) (by rwa [hgrammar₁]) hlive hrenew
  rw [hgrammar₁, hdefinition] at hsplit' hdisplays₂
  obtain rfl : split = split' := Except.ok.inj (hsplit.symm.trans hsplit')
  refine ⟨created, _, hcreate, hrenew, ⟨_, hdisplays, hdisplays₂⟩, ?_⟩
  exact hgarden'.outline_eq hgarden₂ (by rw [hgrammar₂, hgrammar₁, hgrammar']) hlive' hlive₂
    hdisplays hdisplays₂

/-- The first part of a row was one letter, which is the other alternative of a row; now that it holds
two, it shows the same as a new row of two letters. -/
theorem Session.setContent_forgets_row :
    (rowTree.setContent ⟨2, 0⟩ ['a', 'a']).result = .ok rowLonger ∧
      ∃ created renewed, (Tree.empty rowGrammar).create 0 = .ok created ∧
        (created.tree.setContent created.value ['a', 'a']).result = .ok renewed ∧
        ∃ v, rowLonger.tree.Displays v ⟨2, 0⟩ ∧ renewed.tree.Displays v created.value := by
  have hlive : rowTree.Live ⟨2, 0⟩ := by decide
  obtain ⟨created, renewed, hcreate, hrenew, hdisplays, -⟩ :=
    Session.setContent_forgets rowDraft_build run_rowOperations hlive setContent_row
  exact ⟨setContent_row, created, renewed, hcreate, hrenew, hdisplays⟩

end Tessera
