/-
**Runs and their faults.**

A strict run ends with nothing as soon as one of its calls comes upon a fault.  Whatever calls are made
on a tree of a grammar that was built, with whatever definitions, texts, numbers and handles, it does so
in one case only, and is the run in all others.  Questions about the tree come upon no fault at all,
whatever handles they are given.

The case is that of a handle of another tree.  A handle has a number and a generation, and nothing that
says which tree it is of.  So it may happen to name a free slot with its present generation.  The slot
is taken for a node, which it is not: it has the definition of the node that was released, but no parts
for a content of this definition.  No call on the tree itself ever answered with such a handle, unless a
slot was released `2 ^ 32` times, and its generation is not zero.

Main definitions:

* `Tessera.Tree.Answers` — every question is answered without a fault;
* `Tessera.Session.Usual` — a handle is live, stale, or one of the generation zero.

Main results:

* `Tessera.Garden.answers` — questions about a tree in order;
* `Tessera.Session.not_stray_of_usual` — **only a handle from elsewhere leads a call astray**;
* `Tessera.Session.strict_run` — **a run comes upon a fault where a call is stray, and nowhere else**.
-/

import Tessera.Proofs.Tree.StrictCalls

set_option autoImplicit false

namespace Tessera

open Branch Tessera.Tree

variable {t : Tree} {g : Grammar} {n : NodeId} {roots : List Branch} {s : Session}

/-! ### Questions -/

/-- Every question is answered without a fault, whatever handle it is given. -/
structure Tree.Answers (t : Tree) : Prop where
  nodeCount : Strict.nodeCount t = some t.nodeCount
  children : ∀ n, Strict.children t n = .check (t.children n)
  isActive : ∀ n, Strict.isActive t n = .check (t.isActive n)
  regex : ∀ n, Strict.regex t n = .check (t.regex n)
  childOf : ∀ n d, Strict.childOf t n d = .check (t.childOf n d)
  field : ∀ n name, Strict.field t n name = .check (t.field n name)
  current : ∀ n, Strict.current t n = .check (t.current n)
  outline : ∀ n, Strict.outline t n = .check (t.outline n)

namespace Strict

open StrictCall

theorem name_eq (hg : g.Tabled) {d : DefId} (hd : d < g.size) : name g d = some (g.name? d) := by
  rw [name, chain_eq hg hd]
  rfl

/-- The active parts of a node that was found are found, too. -/
theorem active_of_lookup (h : Garden t roots) (hlookup : t.lookup? n = some (t.node n)) :
    active (t.node n).body = some (t.node n).body.active ∧
      ∀ c ∈ (t.node n).body.active, t.lookup? c = some (t.node c) := by
  rcases h.live_or_vacant hlookup with hn | ⟨-, hvacant⟩
  · refine ⟨active_eq (h.sound n hn).formed, fun c hc => lookup?_of_live (h.live_iff.2 ?_)⟩
    exact (h.owned_mem hn (Body.owned_of_active hc)).1
  · rw [hvacant.body]
    exact ⟨rfl, by simp [Body.active]⟩

/-- The lines of a node that was found. -/
theorem outlineLines_eq (h : Garden t roots) (hdefined : t.Defined t.grammar)
    (hg : t.grammar.Tabled) (hlookup : t.lookup? n = some (t.node n)) (fuel depth : Nat) :
    outlineLines t fuel depth n = some (Tree.outlineLines t fuel depth n) := by
  induction fuel generalizing depth n with
  | zero => rfl
  | succ fuel ih =>
      obtain ⟨hsize, -⟩ := lookup?_eq_some.1 hlookup
      obtain ⟨hactive, hparts⟩ := active_of_lookup h hlookup
      have hd : (t.node n).definition < t.grammar.size := hdefined.lt _ hsize
      have hbelow : (t.node n).body.active.mapM (outlineLines t fuel (depth + 1)) =
          some ((t.node n).body.active.map (Tree.outlineLines t fuel (depth + 1))) :=
        mapM_eq fun c hc => ih (hparts c hc) _
      rw [outlineLines, node_eq hsize]
      simp only [Option.bind_eq_bind, Option.bind_some, name_eq hg hd, hactive, hbelow]
      rfl

end Strict

namespace Garden

open StrictCall

/-- The children of a sequence stand in slots. -/
theorem size_of_child {c : NodeId} {parts : List NodeId} (h : Garden t roots)
    (hparts : t.sequenceChildren n = .ok parts) (hc : c ∈ parts) : c.index < t.slots.size :=
  (h.live_of_kin (kin_of_sequenceChildren hparts hc)).size

theorem mapM_node_eq {parts : List NodeId} (h : Garden t roots)
    (hparts : t.sequenceChildren n = .ok parts) :
    parts.mapM (Strict.node t) = some (parts.map t.node) :=
  Strict.mapM_eq fun _ hc => Strict.node_eq (h.size_of_child hparts hc)

variable (h : Garden t roots) (hdefined : t.Defined t.grammar) (hg : t.grammar.Tabled)
include h hdefined hg

/-- **Questions about a tree in order are answered without faults.** -/
theorem answers : t.Answers where
  nodeCount := by
    have hsub : t.free ⊆ List.range t.slots.size :=
      fun i hi => List.mem_range.2 (h.apart.free_lt_size hi)
    have hle := (List.subperm_of_subset h.forest.free_nodup hsub).length_le
    rw [List.length_range] at hle
    exact Strict.minus_eq hle
  children n := by
    unfold Strict.children Tree.children
    refine bind_eq rfl fun m hget => ?_
    obtain ⟨hlookup, rfl⟩ := lookup?_of_get hget
    rw [(Strict.active_of_lookup h hlookup).1]
    rfl
  isActive n := by
    unfold Strict.isActive Tree.isActive
    refine bind_eq rfl fun m hget => ?_
    obtain ⟨hlookup, rfl⟩ := lookup?_of_get hget
    have hparent : Strict.activeParent t n = some (t.activeParent? n) := by
      rcases h.live_or_vacant hlookup with hn | ⟨hfree, hvacant⟩
      · exact Strict.activeParent_eq h.trellis hn
      · exact Strict.activeParent_of_parent (h.apart.free_lt_size hfree) hvacant.parent
    rw [hparent]
    rfl
  regex n := by
    unfold Strict.regex Tree.regex
    refine bind_eq rfl fun m hget => ?_
    obtain ⟨rfl, -, hd⟩ := hdefined.get hget
    rw [if_pos hd]
    rfl
  childOf n d := by
    unfold Strict.childOf
    cases hparts : t.sequenceChildren n with
    | error fault => rw [Tree.childOf, hparts]; rfl
    | ok parts =>
        rw [check_bind rfl, h.mapM_node_eq hparts]
        rfl
  field n name := by
    unfold Strict.field
    cases hparts : t.sequenceChildren n with
    | error fault => rw [Tree.field, hparts]; rfl
    | ok parts =>
        have hnames : (parts.map t.node).mapM (fun m => Strict.name t.grammar m.definition) =
            some ((parts.map t.node).map fun m => t.grammar.name? m.definition) := by
          refine Strict.mapM_eq fun m hm => ?_
          obtain ⟨c, hc, rfl⟩ := List.mem_map.1 hm
          exact Strict.name_eq hg (hdefined.lt _ (h.size_of_child hparts hc))
        rw [check_bind rfl, must_bind (h.mapM_node_eq hparts), hnames]
        rfl
  current n := by
    unfold Strict.current Tree.current
    refine bind_eq rfl fun m hget => ?_
    obtain ⟨hlookup, rfl⟩ := lookup?_of_get hget
    cases hbody : (t.node n).body with
    | choice alternatives current =>
        have hn := Strict.mem_of_body h hget hbody (by simp)
        obtain ⟨-, -, -, -, hcurrent⟩ := (h.sound n hn).formed.shape_choice hbody
        dsimp only
        rw [Strict.currentOf_eq hcurrent]
        rfl
    | _ => rfl
  outline n := by
    unfold Strict.outline Tree.outline
    refine bind_eq rfl fun m hget => ?_
    rw [Strict.outlineLines_eq h hdefined hg (lookup?_of_get hget).1]
    rfl

end Garden

/-! ### Handles -/

namespace Session

/-- The handle named a node at some point of the run of the calls, and may name it still, or its
generation is zero. -/
def Usual (g : Grammar) (ops : List Operation) (n : NodeId) : Prop :=
  n.generation = 0 ∨ ∃ before later, ops = before ++ later ∧ (run g before).tree.Live n

/-- The generation of a free slot is not zero: it was released. -/
theorem generation_ne_zero {ops : List Operation} {i : Nat} (hfree : i ∈ (run g ops).tree.free)
    (hfew : timesReleased (released g ops) i < 2 ^ 32) :
    ((run g ops).tree.slot i).generation ≠ 0 := by
  have hlogged := run_logged g ops
  have htimes := hlogged.freed i (by simp [Tree.empty]) hfree
  have hempty : ((Tree.empty g).slot i).generation = 0 := by
    rw [slot_of_size_le (Nat.zero_le _)]
    rfl
  rw [hlogged.generation, hempty, UInt32.zero_add]
  intro hzero
  have := congrArg UInt32.toNat hzero
  rw [UInt32.toNat_ofNat_of_lt' hfew] at this
  exact htimes this

/-- **Only a handle from elsewhere leads a call astray**, as long as no slot was released `2 ^ 32`
times. -/
theorem not_stray_of_usual {ops : List Operation} {text : Text}
    (hfew : ∀ i, timesReleased (released g ops) i < 2 ^ 32) (hn : Usual g ops n) :
    ¬ (run g ops).tree.Stray (.setContent n text) := by
  rintro ⟨hfree, hlookup, -⟩
  rcases hn with hzero | ⟨before, later, rfl, hlive⟩
  · obtain ⟨-, hgeneration, -⟩ := lookup?_eq_some.1 hlookup
    exact generation_ne_zero hfree (hfew _) (hgeneration.trans hzero)
  · -- the node was released in between, so the handle is stale
    have hlater := foldl_logged later (run g before)
    rw [← run_append] at hlater
    have hgone := hlater.mem_of_not_live hlive fun hlive' => hlive'.occupied hfree
    have hmem : n ∈ released g (before ++ later) := by
      rw [released_append]
      exact List.mem_append_right _ hgone
    rw [(run_logged g (before ++ later)).lookup?_eq_none (hfew _) hmem] at hlookup
    cases hlookup

/-! ### Runs -/

/-- A call on a tree in order comes upon no fault, unless it is stray. -/
theorem Tended.strictStep_eq (h : Tended g s) (hdefined : s.tree.Defined g) (hg : g.Tabled)
    (hrank : g.Ranked) {op : Operation} (hstray : ¬ s.tree.Stray op) :
    s.strictStep op = some (s.step op) := by
  obtain ⟨rfl, -, roots, hgarden, -⟩ := h
  rw [strictStep, Strict.perform_eq hgarden hdefined hg hrank hstray, Session.step]
  cases s.tree.perform op <;> rfl

/-- A stray call comes upon a fault. -/
theorem Tended.strictStep_stray (h : Tended g s) (hdefined : s.tree.Defined g) (hg : g.Tabled)
    {op : Operation} (hstray : s.tree.Stray op) : s.strictStep op = none := by
  obtain ⟨rfl, -, roots, hgarden, -⟩ := h
  cases op with
  | setContent n text =>
      rw [strictStep, Strict.perform_stray hgarden hdefined hg hstray]
      rfl
  | _ => exact hstray.elim

/-- Some call of the run is stray. -/
def GoesAstray (g : Grammar) (ops : List Operation) : Prop :=
  ∃ before op after, ops = before ++ op :: after ∧ (run g before).tree.Stray op

/-- One more call is stray, or one of those before. -/
theorem goesAstray_snoc {ops : List Operation} {op : Operation} :
    GoesAstray g (ops ++ [op]) ↔ GoesAstray g ops ∨ (run g ops).tree.Stray op := by
  constructor
  · rintro ⟨before, op', after, hops, hstray⟩
    rcases List.eq_nil_or_concat after with rfl | ⟨after, last, rfl⟩
    · obtain ⟨rfl, rfl⟩ := List.append_inj' hops rfl |>.imp_right List.singleton_inj.1
      exact .inr hstray
    · rw [List.concat_eq_append, ← List.cons_append, ← List.append_assoc] at hops
      obtain ⟨rfl, -⟩ := List.append_inj' hops rfl
      exact .inl ⟨before, op', after, rfl, hstray⟩
  · rintro (⟨before, op', after, rfl, hstray⟩ | hstray)
    · exact ⟨before, op', after ++ [op], by simp, hstray⟩
    · exact ⟨ops, op, [], rfl, hstray⟩

theorem strictRun_snoc (ops : List Operation) (op : Operation) :
    strictRun g (ops ++ [op]) = (strictRun g ops).bind fun s => s.strictStep op := by
  rw [strictRun, strictRun, List.foldlM_append]
  simp

/-- A strict run ends at the first stray call.  By induction on the calls from the first one on: as long
as none was stray, the strict run has come as far as the run. -/
theorem strictRun_eq (hg : g.Tabled) (hrank : g.Ranked) (ops : List Operation) :
    (GoesAstray g ops → strictRun g ops = none) ∧
      (¬ GoesAstray g ops → strictRun g ops = some (run g ops)) := by
  induction ops using List.reverseRecOn with
  | nil =>
      refine ⟨?_, fun _ => rfl⟩
      rintro ⟨before, op, after, hops, -⟩
      simp at hops
  | append_singleton ops op ih =>
      obtain ⟨hastray, hsafe⟩ := ih
      have htended := tended_run hg.toValid hrank ops
      have hdefined := defined_slots_run hg.toValid ops
      rw [goesAstray_snoc, strictRun_snoc]
      constructor
      · intro h
        by_cases hops : GoesAstray g ops
        · rw [hastray hops, Option.bind_none]
        · rw [hsafe hops, Option.bind_some]
          exact htended.strictStep_stray hdefined hg (h.resolve_left hops)
      · intro h
        obtain ⟨hops, hop⟩ := not_or.1 h
        rw [hsafe hops, Option.bind_some, htended.strictStep_eq hdefined hg hrank hop, run_append]
        rfl

/-- **A run comes upon a fault where a call is stray, and nowhere else.**  Whatever calls are made on a
tree of a grammar that was built: the strict run ends with nothing if one of the calls gives a content,
with a handle of the number and the generation of a free slot, that a node with parts could have which
was there before; and it is the run otherwise.  This is so whenever the handles that are given new
contents are live, stale or of the generation zero, and no slot was released `2 ^ 32` times.  After all
runs, every question about the tree is answered without a fault, whatever handle it is given. -/
theorem strict_run {draft : Draft} (hbuild : draft.build = .ok g) (ops : List Operation) :
    (GoesAstray g ops → strictRun g ops = none) ∧
    (¬ GoesAstray g ops → strictRun g ops = some (run g ops)) ∧
    ((∀ i, timesReleased (released g ops) i < 2 ^ 32) →
      (∀ before n text after, ops = before ++ .setContent n text :: after → Usual g before n) →
        ¬ GoesAstray g ops) ∧
    (run g ops).tree.Answers := by
  have hg := Draft.build_tabled hbuild
  have hrank := Draft.build_ranked hbuild
  obtain ⟨hastray, hsafe⟩ := strictRun_eq hg hrank ops
  refine ⟨hastray, hsafe, fun hfew husual => ?_, ?_⟩
  · rintro ⟨before, op, after, hops, hstray⟩
    cases op with
    | setContent n text =>
        refine not_stray_of_usual (fun i => ?_) (husual before n text after hops) hstray
        refine Nat.lt_of_le_of_lt ?_ (hfew i)
        rw [hops, released_append, timesReleased_append]
        exact Nat.le_add_right _ _
    | _ => exact hstray
  · obtain ⟨hgrammar, -, roots, hgarden, -⟩ := tended_run hg.toValid hrank ops
    refine hgarden.answers ?_ ?_
    · rw [hgrammar]
      exact defined_slots_run hg.toValid ops
    · rwa [hgrammar]

/-- The run of digits comes upon no fault, and neither does a call with the stale handle of the first
digit. -/
theorem strict_run_ones :
    onesDraft.build = .ok onesGrammar ∧
      strictRun onesGrammar (onesOperations ++ [.setContent ⟨1, 0⟩ ['1']]) =
        some (run onesGrammar (onesOperations ++ [.setContent ⟨1, 0⟩ ['1']])) ∧
      (run onesGrammar (onesOperations ++ [.setContent ⟨1, 0⟩ ['1']])).tree.Answers := by
  obtain ⟨hrun, hreleased⟩ := run_onesOperations
  have hlookup : (onesFilled (onesFilled onesSprout)).tree.lookup? ⟨1, 0⟩ = none := rfl
  have hlast : stepLog (run onesGrammar onesOperations) (.setContent ⟨1, 0⟩ ['1']) = [] := by
    rw [stepLog, hrun, perform_of_lookup hlookup rfl]
  have hfew : ∀ i, timesReleased (released onesGrammar
      (onesOperations ++ [.setContent ⟨1, 0⟩ ['1']])) i < 2 ^ 32 := by
    intro i
    rw [released_append, hreleased, logEach, hlast]
    exact Nat.lt_of_le_of_lt List.countP_le_length (by decide)
  obtain ⟨-, hsafe, husual, hanswers⟩ :=
    strict_run onesDraft_build (onesOperations ++ [.setContent ⟨1, 0⟩ ['1']])
  refine ⟨onesDraft_build, hsafe (husual hfew fun before n text after hops => ?_), hanswers⟩
  have hmem : Operation.setContent n text ∈ onesOperations ++ [.setContent ⟨1, 0⟩ ['1']] := by
    rw [hops]
    simp
  have hn : n = ⟨0, 0⟩ ∨ n = ⟨1, 0⟩ := by
    simp only [onesOperations, List.cons_append, List.nil_append, List.mem_cons, reduceCtorEq,
      Operation.setContent.injEq, List.not_mem_nil, or_false, false_or] at hmem
    tauto
  rcases hn with rfl | rfl
  · exact .inl rfl
  · exact .inl rfl

/-! ### A handle of another tree -/

/-- Runs of ones, each of them in a sequence of its own. -/
def cellRules : Array Rule := #[.literal ['1'], .sequence [0], .loop 1 .any]

/-- The draft of these runs. -/
def cellDraft : Draft := ⟨cellRules.map some, .empty, {}, .standard⟩

/-- The grammar of these runs. -/
def cellGrammar : Grammar where
  rules := cellRules
  resolved := #[0, 1, 2]
  names := .empty
  limits := {}
  engine := .standard
  acceptors := Acceptors.ofRules .standard cellRules {} #[none, none, none]

theorem cellDraft_build : cellDraft.build = .ok cellGrammar := by with_unfolding_all rfl

/-- The split of a single cell. -/
def cellSplit : Split := .sequence ⟨0, 1⟩ [.leaf ⟨0, 1⟩]

theorem resolve_cell : (resolve cellGrammar 1 ['1']).result = .ok cellSplit := by
  have hrun : Query.backtrackRun ⟨cellGrammar, ['1'], true⟩ 1 = .ok cellSplit := by
    with_unfolding_all rfl
  refine resolve_of_run (by decide +kernel) ?_
  exact (Query.run_eq_backtrackRun (Draft.build_valid cellDraft_build) rfl (by decide)).trans hrun

theorem resolve_cells : (resolve cellGrammar 2 ['1']).result = .ok (.loop ⟨0, 1⟩ [cellSplit]) := by
  have hrun : Query.backtrackRun ⟨cellGrammar, ['1'], true⟩ 2 = .ok (.loop ⟨0, 1⟩ [cellSplit]) := by
    with_unfolding_all rfl
  refine resolve_of_run (by decide +kernel) ?_
  exact (Query.run_eq_backtrackRun (Draft.build_valid cellDraft_build) rfl (by decide)).trans hrun

theorem resolve_noCells : (resolve cellGrammar 2 []).result = .ok (.loop ⟨0, 0⟩ []) := by
  have hrun : Query.backtrackRun ⟨cellGrammar, [], true⟩ 2 = .ok (.loop ⟨0, 0⟩ []) := by
    with_unfolding_all rfl
  refine resolve_of_run (by decide +kernel) ?_
  exact (Query.run_eq_backtrackRun (Draft.build_valid cellDraft_build) rfl (by decide)).trans hrun

/-- A run of one cell is made, and emptied. -/
def cellOperations : List Operation :=
  [.create 2, .setContent ⟨0, 0⟩ ['1'], .setContent ⟨0, 0⟩ []]

/-- The tree after a new content of the run. -/
def cellFilled (text : Text) (split : Split) (t : Tree) : Tree :=
  (Edit.propagateUp ⟨0, 0⟩ (Edit.assign text split ⟨0, 0⟩ ⟨t, []⟩)).tree

/-- The tree with the new run. -/
def cellSprout : Tree := ((Tree.empty cellGrammar).allocFilled none 2).2

/-- The tree with the run of one cell. -/
def cellFull : Tree := cellFilled ['1'] (.loop ⟨0, 1⟩ [cellSplit]) cellSprout

/-- The tree after the run was emptied: the cell and its one have left two free slots. -/
def cellEmptied : Tree := cellFilled [] (.loop ⟨0, 0⟩ []) cellFull

theorem run_cellOperations :
    run cellGrammar (cellOperations.take 1) = ⟨cellSprout, [⟨0, 0⟩]⟩ ∧
      run cellGrammar (cellOperations.take 2) = ⟨cellFull, [⟨0, 0⟩]⟩ ∧
      run cellGrammar cellOperations = ⟨cellEmptied, [⟨0, 0⟩]⟩ := by
  have hroot : ((Tree.empty cellGrammar).allocFilled none 2).1 = ⟨0, 0⟩ := rfl
  have hcontains : (Tree.empty cellGrammar).grammar.contains 2 = true := rfl
  have hcreate : step ⟨.empty cellGrammar, []⟩ (.create 2) = ⟨cellSprout, [⟨0, 0⟩]⟩ := by
    simp [step, Tree.perform, Tree.create, hcontains, hroot, Except.map, Change.map, createdBy,
      cellSprout]
  have hfill : step ⟨cellSprout, [⟨0, 0⟩]⟩ (.setContent ⟨0, 0⟩ ['1']) =
      ⟨cellFull, [⟨0, 0⟩]⟩ := step_setContent rfl resolve_cells
  have hempty : step ⟨cellFull, [⟨0, 0⟩]⟩ (.setContent ⟨0, 0⟩ []) =
      ⟨cellEmptied, [⟨0, 0⟩]⟩ := step_setContent rfl resolve_noCells
  refine ⟨hcreate, ?_, ?_⟩
  · simp only [run, cellOperations, List.take_succ_cons, List.take_zero, List.foldl_cons,
      List.foldl_nil, hcreate, hfill]
  · simp only [run, cellOperations, List.foldl_cons, List.foldl_nil, hcreate, hfill, hempty]

/-- Without free slots no call is stray. -/
theorem not_stray_of_free {op : Operation} (hfree : t.free = []) : ¬ t.Stray op := by
  cases op with
  | setContent n text =>
      rintro ⟨hn, -⟩
      rw [hfree] at hn
      cases hn
  | _ => exact id

/-- **A handle of another tree may lead to a fault.**  A run of one cell is made and emptied; in
another tree it is filled once more, so that the one of the new cell has the handle `⟨1, 1⟩` there.  In
the first tree this is the slot that the old cell left, and a new content for it comes upon a fault. -/
theorem strict_run_elsewhere :
    cellDraft.build = .ok cellGrammar ∧
      strictRun cellGrammar cellOperations = some (run cellGrammar cellOperations) ∧
      (run cellGrammar (cellOperations ++ [.setContent ⟨0, 0⟩ ['1']])).tree.lookup? ⟨1, 1⟩ =
        some ⟨1, 0, some ['1'], some ⟨2, 1⟩, .leaf, []⟩ ∧
      strictRun cellGrammar (cellOperations ++ [.setContent ⟨1, 1⟩ ['1']]) = none := by
  have hg := Draft.build_tabled cellDraft_build
  have hrank := Draft.build_ranked cellDraft_build
  obtain ⟨hsprout, hfull, hemptied⟩ := run_cellOperations
  have hsafe : ¬ GoesAstray cellGrammar cellOperations := by
    have hsplit : cellOperations = [.create 2] ++ [.setContent ⟨0, 0⟩ ['1']] ++
        [.setContent ⟨0, 0⟩ []] := rfl
    rw [hsplit, goesAstray_snoc, goesAstray_snoc]
    rintro ((⟨before, op, after, hops, hstray⟩ | hstray) | hstray)
    · obtain ⟨rfl, hops⟩ | ⟨before, rfl, hops⟩ := List.cons_eq_append_iff.1 hops
      · cases hops
        exact hstray
      · simp at hops
    · exact not_stray_of_free (congrArg (fun s => s.tree.free) hsprout) hstray
    · exact not_stray_of_free (congrArg (fun s => s.tree.free) hfull) hstray
  have hstray : (run cellGrammar cellOperations).tree.Stray (.setContent ⟨1, 1⟩ ['1']) := by
    rw [hemptied]
    exact ⟨by decide, rfl, by decide, cellSplit, resolve_cell⟩
  have hfill : step ⟨cellEmptied, [⟨0, 0⟩]⟩ (.setContent ⟨0, 0⟩ ['1']) =
      ⟨cellFilled ['1'] (.loop ⟨0, 1⟩ [cellSplit]) cellEmptied, [⟨0, 0⟩]⟩ :=
    step_setContent rfl resolve_cells
  refine ⟨cellDraft_build, (strictRun_eq hg hrank _).2 hsafe, ?_,
    (strictRun_eq hg hrank _).1 (goesAstray_snoc.2 (.inr hstray))⟩
  rw [run_append, hemptied, List.foldl_cons, List.foldl_nil, hfill]
  rfl

end Session

end Tessera
