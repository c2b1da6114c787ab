/-
**Alternatives that lose.**

When a node receives a new content, every choice that the content goes through has a current alternative
afterwards, and every optional either holds its child or is absent.  The alternative that was current
before, and the child of an optional that is absent, are cleared.  But a choice may have further
alternatives, which were made on first use and never became current.  They are passed by: whatever they
hold, they hold afterwards, and the same is true of such alternatives inside of what is cleared.  So what
a choice or an optional no longer selects is blank afterwards exactly when the alternatives that are
passed by were blank before.

Main results:

* `Tessera.Garden.clearable_of_blank` — clearing leaves nothing where all alternatives that it passes by
  are blank;
* `Tessera.Session.losers_run` — **what a new content leaves in the parts that it does not select**.
-/

import Tessera.Proofs.Search.Defaults
import Tessera.Proofs.Tree.Presence
import Tessera.Proofs.Tree.Splicing

set_option autoImplicit false

namespace Tessera

open Branch Tessera.Tree

variable {t : Tree} {g : Grammar} {n p c : NodeId} {text : Text} {roots : List Branch}

namespace Tree

/-- What a node keeps and does not select is an alternative that is not current, or the child of an
optional that is absent. -/
theorem spare_iff : t.Spare p c ↔
    (∃ alternatives current, (t.node p).body = .choice alternatives current ∧
      some c ∈ alternatives ∧ Body.currentOf alternatives current ≠ some c) ∨
    (t.node p).body = .optional (some c) false := by
  unfold Spare
  cases hbody : (t.node p).body with
  | choice alternatives current => simp [Body.kept, Body.active]
  | optional child present => cases present <;> simp [Body.kept, Body.active]
  | _ => simp [Body.kept]

/-- The alternatives of the choices below the node `n` that are not current are blank. -/
def Tidied (t : Tree) (n : NodeId) : Prop :=
  ∀ p alternatives current c, t.Below n p → (t.node p).body = .choice alternatives current →
    some c ∈ alternatives → Body.currentOf alternatives current ≠ some c → t.Blank c

end Tree

namespace Garden

/-- Clearing leaves nothing where all alternatives that it passes by are blank. -/
theorem clearable_of_blank (h : Garden t roots) (hn : n ∈ idsAll roots) (hblank : t.Tidied n)
    (hp : t.Below n p) : t.Clearable p := by
  obtain ⟨b, d, hb, hin, rfl, hd⟩ := h.exists_branch (h.grove.below_mem hn hp)
  generalize (t.node d.root).parent = parent at hd
  clear hin
  induction hd with
  | @fork _ id parts _ _ _ howned _ ih =>
      refine .node (fun c hc => ?_) fun c hc hnot => ?_
      · have hc := Body.owned_of_cleared (Body.owned_cleared_of_swept hc)
        rw [root_fork, howned] at hc
        obtain ⟨q, hq, rfl⟩ := List.mem_map.1 hc
        refine ih q hq (hp.tail ?_)
        rw [root_fork, howned]
        exact List.mem_map_of_mem hq
      · obtain ⟨alternatives, current, hbody, hmem, hcurrent⟩ := Body.passed_iff.1 ⟨hc, hnot⟩
        exact hblank id alternatives current c hp hbody hmem hcurrent

/-- Clearing the parts that a node keeps leaves nothing in them. -/
theorem leavesBlank_of_blank (h : Garden t roots) (hn : n ∈ idsAll roots) (hblank : t.Tidied n)
    (hp : t.Below n p) (hc : c ∈ (t.node p).body.kept) : t.LeavesBlank p c := by
  unfold LeavesBlank
  split
  · exact h.clearable_of_blank hn hblank (hp.tail (Body.owned_of_kept hc))
  · next hnot =>
    obtain ⟨alternatives, current, hbody, hmem, hcurrent⟩ :=
      Body.passed_iff.1 ⟨Body.owned_cleared_of_kept hc, hnot⟩
    exact hblank p alternatives current c hp hbody hmem hcurrent

end Garden

/-- **What a new content leaves in the parts that it does not select.**  In every tree in use, let a node
receive a new content, and let a choice or an optional that the content goes through keep a part that is
not selected afterwards.  It kept this part before, and the part is blank exactly when clearing it from
there leaves nothing in it: if it was selected before, or belongs to an optional, when the alternatives
inside that are not current are blank, and else only if it was blank already.  So when the alternatives
below the node that were not current were blank before, all parts that are not selected are blank
afterwards. -/
theorem Session.losers_run {draft : Draft} (hbuild : draft.build = .ok g) {ops : List Operation}
    (hrun : (Session.run g ops).tree = t) {change : Change Unit}
    (hok : (t.setContent n text).result = .ok change) :
    (∀ p c, change.tree.ActiveBelow n p → change.tree.Spare p c → t.Live p ∧ t.Below n p ∧
      c ∈ (t.node p).body.kept ∧ (change.tree.Blank c ↔ t.LeavesBlank p c)) ∧
    (t.Tidied n → ∀ p c, change.tree.ActiveBelow n p → change.tree.Spare p c →
      change.tree.Blank c) := by
  have hvalid := Draft.build_valid hbuild
  have hrank := Draft.build_ranked hbuild
  subst hrun
  obtain ⟨hgrammar, -, roots, hgarden, -⟩ := Session.tended_run hvalid hrank ops
  generalize (Session.run g ops).tree = t at *
  subst hgrammar
  obtain ⟨split, hlookup, -⟩ := setContent_ok hok
  rcases hgarden.live_or_vacant hlookup with hn | ⟨hfree, hvacant⟩
  · obtain ⟨t₁, roots', ps, ns, -, -, -, hspare, -⟩ := hgarden.setContent hvalid hrank hn hok
    refine ⟨fun p c hp hc => ?_, fun hblank p c hp hc => ?_⟩
    · obtain ⟨hbelow, hkept, hblank⟩ := hspare p c hp hc
      exact ⟨hgarden.live_iff.2 (hgarden.grove.below_mem hn hbelow), hbelow, hkept, hblank⟩
    · obtain ⟨hbelow, hkept, hiff⟩ := hspare p c hp hc
      exact hiff.2 (hgarden.leavesBlank_of_blank hn hblank hbelow hkept)
  · -- a free slot has no parts
    obtain ⟨hr, -⟩ := hgarden.setContent_vacant hvalid hfree hok
    have hbody : (change.tree.node n).body = .leaf := (hr.stays n.index).body.trans hvacant.body
    have hnone : ∀ p c, change.tree.ActiveBelow n p → ¬ change.tree.Spare p c := by
      intro p c hp hc
      rcases activeBelow_iff.1 hp with rfl | ⟨q, hq, -⟩
      · simp [Spare, hbody, Body.kept] at hc
      · simp [hbody, Body.active] at hq
    exact ⟨fun p c hp hc => absurd hc (hnone p c hp), fun _ p c hp hc => absurd hc (hnone p c hp)⟩

namespace Session

/-- The first part of the row was one letter, the second alternative of a row.  Now that it has two
letters, the alternative that lost is blank. -/
theorem losers_run_row :
    (rowTree.setContent ⟨2, 0⟩ ['a', 'a']).result = .ok rowLonger ∧ rowTree.Tidied ⟨2, 0⟩ ∧
      rowTree.content ⟨4, 0⟩ = .ok ['a'] ∧ rowLonger.tree.Spare ⟨2, 0⟩ ⟨4, 0⟩ ∧
      rowLonger.tree.Blank ⟨4, 0⟩ := by
  have hbody : (rowTree.node ⟨2, 0⟩).body = .choice [none, some ⟨4, 0⟩] (some 1) := rfl
  have hleaf : (rowTree.node ⟨4, 0⟩).body = .leaf := rfl
  have htidied : rowTree.Tidied ⟨2, 0⟩ := by
    intro p alternatives current c hp hchoice hc hcurrent
    -- below the part there is its letter, and nothing else
    rcases Relation.ReflTransGen.cases_head hp with rfl | ⟨q, hq, hqp⟩
    · rw [hbody] at hchoice
      obtain ⟨rfl, rfl⟩ := Body.choice.inj hchoice
      obtain rfl : c = ⟨4, 0⟩ := by simpa using hc
      exact absurd rfl hcurrent
    · obtain rfl : q = ⟨4, 0⟩ := by simpa [hbody, Body.owned] using hq
      rcases Relation.ReflTransGen.cases_head hqp with rfl | ⟨r, hr, -⟩
      · rw [hleaf] at hchoice
        cases hchoice
      · simp [hleaf, Body.owned] at hr
  have hspare : rowLonger.tree.Spare ⟨2, 0⟩ ⟨4, 0⟩ := by
    have hbody' : (rowLonger.tree.node ⟨2, 0⟩).body =
        .choice [some ⟨5, 0⟩, some ⟨4, 0⟩] (some 0) := rfl
    exact spare_iff.2 (.inl ⟨_, _, hbody', by simp, by simp [Body.currentOf]⟩)
  exact ⟨setContent_row, htidied, rfl, hspare,
    (losers_run rowDraft_build run_rowOperations setContent_row).2 htidied _ _ .refl hspare⟩

end Session

/-! ### One letter or another -/

/-- The letter `a` or the letter `b`. -/
def eitherRules : Array Rule := #[.literal ['a'], .literal ['b'], .choice [0, 1]]

/-- The draft of the two letters. -/
def eitherDraft : Draft := ⟨eitherRules.map some, .empty, {}, .standard⟩

/-- The grammar of the two letters. -/
def eitherGrammar : Grammar where
  rules := eitherRules
  resolved := #[0, 1, 2]
  names := .empty
  limits := {}
  engine := .standard
  acceptors := Acceptors.ofRules .standard eitherRules {} #[none, none, none]

theorem eitherDraft_build : eitherDraft.build = .ok eitherGrammar := by with_unfolding_all rfl

/-- The split of the second letter. -/
def eitherSplit : Split := .choice ⟨0, 1⟩ 1 (.leaf ⟨0, 1⟩)

theorem resolve_either : (resolve eitherGrammar 2 ['b']).result = .ok eitherSplit := by
  have hrun : Query.backtrackRun ⟨eitherGrammar, ['b'], true⟩ 2 = .ok eitherSplit := by
    with_unfolding_all rfl
  refine resolve_of_run (by decide +kernel) ?_
  exact (Query.run_eq_backtrackRun (Draft.build_valid eitherDraft_build) rfl (by decide)).trans hrun

namespace Session

/-- A letter whose first alternative was made, and received its content, before the choice did. -/
def eitherOperations : List Operation :=
  [.create 2, .alternative ⟨0, 0⟩ 0, .setContent ⟨1, 0⟩ ['a']]

/-- A choice of two letters. -/
def eitherSprout : Tree := ((Tree.empty eitherGrammar).allocFilled none 2).2

/-- The choice with a node for its first letter. -/
def eitherOpened : Tree :=
  (eitherSprout.allocFilled (some ⟨0, 0⟩) 0).2.setBody ⟨0, 0⟩ (.choice [some ⟨1, 0⟩, none] none)

/-- The choice whose first letter is there, but is not current. -/
def eitherTree : Tree :=
  (Edit.propagateUp ⟨1, 0⟩ (Edit.assign ['a'] (.leaf ⟨0, 1⟩) ⟨1, 0⟩ ⟨eitherOpened, []⟩)).tree

/-- The choice that holds its second letter. -/
def eitherFilled : Change Unit :=
  (Edit.propagateUp ⟨0, 0⟩ (Edit.assign ['b'] eitherSplit ⟨0, 0⟩ ⟨eitherTree, []⟩)).result ()

theorem run_eitherOperations : (run eitherGrammar eitherOperations).tree = eitherTree := by
  have hcreate : step ⟨.empty eitherGrammar, []⟩ (.create 2) = ⟨eitherSprout, [⟨0, 0⟩]⟩ := by
    have hcontains : (Tree.empty eitherGrammar).grammar.contains 2 = true := rfl
    have hroot : ((Tree.empty eitherGrammar).allocFilled none 2).1 = ⟨0, 0⟩ := rfl
    simp [step, Tree.perform, Tree.create, hcontains, hroot, Except.map, Change.map, createdBy,
      eitherSprout]
  have hopen : step ⟨eitherSprout, [⟨0, 0⟩]⟩ (.alternative ⟨0, 0⟩ 0) = ⟨eitherOpened, [⟨0, 0⟩]⟩ := by
    have hanswer : eitherSprout.alternative ⟨0, 0⟩ 0 = .ok ⟨⟨1, 0⟩, eitherOpened, []⟩ := rfl
    simp [step, Tree.perform, hanswer, Except.map, Change.map, createdBy]
  have hset : step ⟨eitherOpened, [⟨0, 0⟩]⟩ (.setContent ⟨1, 0⟩ ['a']) = ⟨eitherTree, [⟨0, 0⟩]⟩ :=
    step_setContent rfl (resolve_literal rfl rfl)
  simp only [run, eitherOperations, List.foldl_cons, List.foldl_nil, hcreate, hopen, hset]

/-- **An alternative that was never current keeps what it holds**: the choice receives the letter `b`, and
its first alternative still holds the letter `a`. -/
theorem alternative_not_cleared :
    eitherDraft.build = .ok eitherGrammar ∧
      ∃ t change, (run eitherGrammar eitherOperations).tree = t ∧
        (t.setContent ⟨0, 0⟩ ['b']).result = .ok change ∧
        change.tree.currentIndex ⟨0, 0⟩ = .ok (some 1) ∧ change.tree.Spare ⟨0, 0⟩ ⟨1, 0⟩ ∧
        change.tree.content ⟨1, 0⟩ = .ok ['a'] ∧ ¬ change.tree.Blank ⟨1, 0⟩ := by
  have hset : (eitherTree.setContent ⟨0, 0⟩ ['b']).result = .ok eitherFilled :=
    setContent_of_split rfl resolve_either
  have hbody : (eitherFilled.tree.node ⟨0, 0⟩).body =
      .choice [some ⟨1, 0⟩, some ⟨2, 0⟩] (some 1) := rfl
  have hheld : (eitherFilled.tree.node ⟨1, 0⟩).content = some ['a'] := rfl
  refine ⟨eitherDraft_build, eitherTree, eitherFilled, run_eitherOperations, hset, rfl,
    spare_iff.2 (.inl ⟨_, _, hbody, by simp, by simp [Body.currentOf]⟩), rfl, fun hblank => ?_⟩
  have hnone := (hblank _ .refl).1
  simp [hheld] at hnone

end Session

end Tessera
