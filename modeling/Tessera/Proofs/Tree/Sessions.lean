/-
**Trees in use.**

Whatever calls are made, with whatever handles, the tree stays in order, and its branches without a
parent are those of the nodes that were created.

Main definitions:

* `Tessera.Tree.Attended` — every listener was registered once, on one node;
* `Tessera.Tree.Tidy` — a tree is in order after a call;
* `Tessera.Session.Tended` — the tree of a session is in order.

Main results:

* `Tessera.Garden.perform` — **a call leaves a tree in order**;
* `Tessera.Session.Tended.step`, `Tessera.Session.tended_run` — and so does a run of calls.
-/

import Tessera.Proofs.Grammar.Eager
import Tessera.Proofs.Tree.FirstUse
import Tessera.Tree.Operation

set_option autoImplicit false

namespace Tessera

open Branch Tessera.Tree

variable {t t' : Tree} {g : Grammar} {roots : List Branch} {s : Session}

/-- The result of a call whose value was changed. -/
theorem Change.map_ok {α β : Type} {f : α → β} {x : Except TreeError (Change α)} {c : Change β}
    (h : x.map (Change.map f) = .ok c) :
    ∃ c', x = .ok c' ∧ f c'.value = c.value ∧ c'.tree = c.tree ∧ c'.notices = c.notices := by
  cases x with
  | error err => cases h
  | ok c' =>
      obtain rfl := Except.ok.inj h
      exact ⟨c', rfl, rfl, rfl, rfl⟩

/-- A handle of an item that was pushed. -/
theorem Tree.push_ok {n : NodeId} {text : Text} {change : Change NodeId}
    (h : t.push n text = .ok change) :
    ∃ items, t.items n = .ok items ∧ t.insert n items.length text = .ok change := by
  unfold Tree.push at h
  exact Except.bind_eq_ok.1 h

/-! ### Listeners -/

/-- Every listener was registered before the next one, once, and on one node only. -/
structure Tree.Attended (t : Tree) : Prop where
  nodup : ∀ i, (t.slot i).listeners.Nodup
  lt : ∀ i, ∀ l ∈ (t.slot i).listeners, l < t.nextListener
  once : ∀ i j, ∀ l ∈ (t.slot i).listeners, l ∈ (t.slot j).listeners → i = j

namespace Tree.Attended

/-- Listeners stay on one node when no node gets another one. -/
theorem inherit (h : t.Attended) (hi : t.Inherits t') : t'.Attended := by
  refine ⟨fun i => (h.nodup i).sublist (hi.listeners i), fun i l hl => ?_, fun i j l hl hl' => ?_⟩
  · rw [hi.nextListener]
    exact h.lt i l ((hi.listeners i).subset hl)
  · exact h.once i j l ((hi.listeners i).subset hl) ((hi.listeners j).subset hl')

/-- A new listener is none of those that were registered before. -/
theorem addListener {n : NodeId} {change : Change ListenerId} (h : t.Attended)
    (hok : t.addListener n = .ok change) : change.tree.Attended := by
  unfold Tree.addListener at hok
  obtain ⟨node, hget, hok⟩ := Except.bind_eq_ok.1 hok
  obtain ⟨hsize, -⟩ := lookup?_eq_some.1 (get_eq_ok.1 hget)
  obtain rfl := Except.ok.inj hok
  generalize ht' : (Change.tree _ : Tree) = t'
  have hslot : ∀ i, t'.slot i = (t.modify n fun m =>
      { m with listeners := m.listeners ++ [t.nextListener] }).slot i := fun i => by
    rw [← ht']
    rfl
  have hself : (t'.slot n.index).listeners = (t.slot n.index).listeners ++ [t.nextListener] := by
    rw [hslot, slot_modify_self hsize]
  have hother : ∀ i ≠ n.index, t'.slot i = t.slot i := fun i hi => by
    rw [hslot, slot_modify_of_ne hi]
  have hnext : t'.nextListener = t.nextListener + 1 := by rw [← ht']
  have hheard : ∀ i, ∀ l ∈ (t'.slot i).listeners,
      l < t.nextListener ∧ l ∈ (t.slot i).listeners ∨ i = n.index ∧ l = t.nextListener := by
    intro i l hl
    by_cases hi : i = n.index
    · rw [hi, hself, List.mem_append, List.mem_singleton] at hl
      exact hl.imp (fun hl => ⟨h.lt _ l hl, hi ▸ hl⟩) fun hl => ⟨hi, hl⟩
    · rw [hother i hi] at hl
      exact .inl ⟨h.lt i l hl, hl⟩
  refine ⟨fun i => ?_, fun i l hl => ?_, fun i j l hl hl' => ?_⟩
  · by_cases hi : i = n.index
    · rw [hi, hself, List.nodup_append']
      refine ⟨h.nodup _, List.nodup_singleton _, fun l hl hl' => ?_⟩
      exact Nat.ne_of_lt (h.lt _ l hl) (List.mem_singleton.1 hl')
    · rw [hother i hi]
      exact h.nodup i
  · rw [hnext]
    rcases hheard i l hl with ⟨hlt, -⟩ | ⟨-, rfl⟩
    · exact Nat.lt_succ_of_lt hlt
    · exact Nat.lt_succ_self _
  · rcases hheard i l hl, hheard j l hl' with ⟨⟨hlt, hl⟩ | ⟨rfl, rfl⟩, ⟨hlt', hl'⟩ | ⟨rfl, heq⟩⟩
    · exact h.once i j l hl hl'
    · exact absurd (heq ▸ hlt) (Nat.lt_irrefl _)
    · exact absurd hlt' (Nat.lt_irrefl _)
    · rfl

end Tree.Attended

/-! ### Calls -/

/-- The tree `t'` is in order after a call on the tree `t`.  Its branches without a parent are the old
ones, and that of the node `created`, if there is one. -/
structure Tree.Tidy (t t' : Tree) (roots : List Branch) (created : Option NodeId) : Prop where
  grammar : t'.grammar = t.grammar
  attended : t'.Attended
  garden : ∃ roots', Garden t' roots' ∧
    roots'.map Branch.root = roots.map Branch.root ++ created.toList

theorem Revised.tidy {t₁ : Tree} {roots' : List Branch} {n : NodeId} {ps : List NodeId}
    {notices ns : List Notice} (h : Revised t t₁ t' roots roots' n ps notices ns)
    (hattended : t.Attended) : t.Tidy t' roots none := by
  obtain ⟨hgarden, hheads, hgrammar, hinherits⟩ := h.garden
  exact ⟨hgrammar, hattended.inherit hinherits, roots', hgarden, by simpa using hheads⟩

namespace Garden

variable (h : Garden t roots) (hattended : t.Attended) (hvalid : t.grammar.Valid)
  (hrank : t.grammar.Ranked) {n : NodeId} {text : Text}
include h hattended hvalid hrank

theorem setContent_tidy {change : Change Unit} (hok : (t.setContent n text).result = .ok change) :
    t.Tidy change.tree roots none := by
  obtain ⟨split, hlookup, -⟩ := setContent_ok hok
  rcases h.live_or_vacant hlookup with hn | ⟨hfree, -⟩
  · obtain ⟨t₁, roots', ps, ns, hrevised, -⟩ := h.setContent hvalid hrank hn hok
    exact hrevised.tidy hattended
  · obtain ⟨hr, -⟩ := h.setContent_vacant hvalid hfree hok
    exact ⟨hr.grammar, hattended.inherit hr.inherits, roots, (h.retold_vacant hr hfree).1, by simp⟩

theorem insert_tidy {change : Change NodeId} {index : Nat}
    (hok : t.insert n index text = .ok change) : t.Tidy change.tree roots none := by
  obtain ⟨-, t₁, roots', ps, ns, new, hrevised, -⟩ := h.insert hvalid hrank hok
  exact hrevised.tidy hattended

/-- A node that is made on first use leaves a tree in order. -/
theorem made_tidy {change : Change NodeId}
    (hok : (∃ index, t.alternative n index = .ok change) ∨
      (∃ d, t.alternativeOf n d = .ok change) ∨ t.optionalChild n = .ok change) :
    t.Tidy change.tree roots none := by
  obtain ⟨⟨roots', hgarden, hheads⟩, hkept, -⟩ := h.made hvalid hrank hok
  exact ⟨hkept.grammar, hattended.inherit hkept.inherits, roots', hgarden, by simpa using hheads⟩

/-- **A call leaves a tree in order**, and its branches without a parent are the old ones, and that of
a node that was created. -/
theorem perform {op : Operation} {change : Change Answer} (hok : t.perform op = .ok change) :
    t.Tidy change.tree roots (Session.createdBy op change.value) := by
  cases op with
  | create d =>
      obtain ⟨c, hc, hvalue, htree, -⟩ := Change.map_ok hok
      obtain ⟨⟨u, hu, hgarden⟩, hgrammar, hinherits, -⟩ := h.create hvalid hrank hc
      rw [← htree, ← hvalue]
      refine ⟨hgrammar, hattended.inherit hinherits, roots ++ [u], hgarden, ?_⟩
      rw [List.map_append, List.map_singleton, hu]
      rfl
  | setContent n text =>
      obtain ⟨c, hc, -, htree, -⟩ := Change.map_ok hok
      exact htree ▸ h.setContent_tidy hattended hvalid hrank hc
  | insert n index text =>
      obtain ⟨c, hc, -, htree, -⟩ := Change.map_ok hok
      exact htree ▸ h.insert_tidy hattended hvalid hrank hc
  | push n text =>
      obtain ⟨c, hc, -, htree, -⟩ := Change.map_ok hok
      obtain ⟨items, -, hinsert⟩ := push_ok hc
      exact htree ▸ h.insert_tidy hattended hvalid hrank hinsert
  | remove n index =>
      obtain ⟨c, hc, -, htree, -⟩ := Change.map_ok hok
      obtain ⟨-, t₁, roots', ps, new, hrevised, -⟩ := h.remove hc
      exact htree ▸ hrevised.tidy hattended
  | alternative n index =>
      obtain ⟨c, hc, -, htree, -⟩ := Change.map_ok hok
      exact htree ▸ h.made_tidy hattended hvalid hrank (.inl ⟨index, hc⟩)
  | alternativeOf n d =>
      obtain ⟨c, hc, -, htree, -⟩ := Change.map_ok hok
      exact htree ▸ h.made_tidy hattended hvalid hrank (.inr (.inl ⟨d, hc⟩))
  | optionalChild n =>
      obtain ⟨c, hc, -, htree, -⟩ := Change.map_ok hok
      exact htree ▸ h.made_tidy hattended hvalid hrank (.inr (.inr hc))
  | addListener n =>
      obtain ⟨c, hc, -, htree, -⟩ := Change.map_ok hok
      obtain ⟨hgrammar, hgarden⟩ := h.addListener hc
      exact htree ▸ ⟨hgrammar, hattended.addListener hc, roots, hgarden, by simp [Session.createdBy]⟩
  | removeListener n l =>
      obtain ⟨c, hc, -, htree, -⟩ := Change.map_ok hok
      obtain ⟨hgrammar, hinherits, hgarden⟩ := h.removeListener hc
      exact htree ▸ ⟨hgrammar, hattended.inherit hinherits, roots, hgarden,
        by simp [Session.createdBy]⟩

end Garden

namespace Session

/-- The tree of a session is in order, and the roots of its branches are the created nodes. -/
structure Tended (g : Grammar) (s : Session) : Prop where
  grammar : s.tree.grammar = g
  attended : s.tree.Attended
  garden : ∃ roots, Garden s.tree roots ∧ roots.map Branch.root = s.created

/-- The empty tree is in order. -/
theorem tended_empty (g : Grammar) : Tended g ⟨.empty g, []⟩ where
  grammar := rfl
  attended := by
    have hnone : ∀ i, ((Tree.empty g).slot i).listeners = [] := fun i => by
      rw [slot_of_size_le (Nat.zero_le _)]
      rfl
    exact ⟨by simp [hnone], by simp [hnone], by simp [hnone]⟩
  garden := ⟨[], ⟨⟨fun i => by simp [Tree.empty], by simp, by simp [Tree.empty]⟩, by simp⟩, rfl⟩

/-- A call leaves the tree in order. -/
theorem Tended.step (h : Tended g s) (hvalid : g.Valid) (hrank : g.Ranked) (op : Operation) :
    Tended g (s.step op) := by
  obtain ⟨rfl, hattended, roots, hgarden, hroots⟩ := h
  unfold Session.step
  cases hok : s.tree.perform op with
  | error err => exact ⟨rfl, hattended, roots, hgarden, hroots⟩
  | ok change =>
      obtain ⟨hgrammar, hattended', roots', hgarden', hroots'⟩ :=
        hgarden.perform hattended hvalid hrank hok
      exact ⟨hgrammar, hattended', roots', hgarden', by rw [hroots', hroots]⟩

/-- **A run of calls leaves the tree in order.** -/
theorem tended_run (hvalid : g.Valid) (hrank : g.Ranked) (ops : List Operation) :
    Tended g (run g ops) := by
  have hrun : ∀ (ops : List Operation) (s : Session), Tended g s →
      Tended g (ops.foldl Session.step s) := by
    intro ops
    induction ops with
    | nil => exact fun s hs => hs
    | cons op ops ih => exact fun s hs => ih _ (hs.step hvalid hrank op)
  exact hrun ops _ (tended_empty g)

end Session

/-! ### A row of two letters -/

/-- A call for a new content whose text has a split succeeds. -/
theorem Tree.setContent_of_split {n : NodeId} {text : Text} {split : Split}
    (hlookup : t.lookup? n = some (t.node n))
    (hsplit : (resolve t.grammar (t.node n).definition text).result = .ok split) :
    (t.setContent n text).result =
      .ok ((Edit.propagateUp n (Edit.assign text split n ⟨t, []⟩)).result ()) := by
  simp [Tree.setContent, get_eq_ok.2 hlookup, Outcome.split_eq_ok.2 hsplit]

namespace Session

theorem step_setContent {n : NodeId} {text : Text} {split : Split}
    (hlookup : s.tree.lookup? n = some (s.tree.node n))
    (hsplit : (resolve s.tree.grammar (s.tree.node n).definition text).result = .ok split) :
    s.step (.setContent n text) =
      ⟨(Edit.propagateUp n (Edit.assign text split n ⟨s.tree, []⟩)).tree, s.created⟩ := by
  simp [Session.step, Tree.perform, setContent_of_split hlookup hsplit, Except.map, Change.map,
    Edit.result, createdBy]

/-- A row of two letters is made, and its root is listened to. -/
def rowOperations : List Operation :=
  [.create 0, .setContent ⟨0, 0⟩ ['a', 'a'], .addListener ⟨0, 0⟩]

/-- The new row. -/
def rowSprout : Tree := ((Tree.empty rowGrammar).allocFilled none 0).2

/-- The row with its letters. -/
def rowFilled : Tree :=
  (Edit.propagateUp ⟨0, 0⟩ (Edit.assign ['a', 'a'] rowSplit ⟨0, 0⟩ ⟨rowSprout, []⟩)).tree

/-- The row that is listened to. -/
def rowTree : Tree :=
  { rowFilled.modify ⟨0, 0⟩ fun n => { n with listeners := n.listeners ++ [rowFilled.nextListener] }
    with nextListener := rowFilled.nextListener + 1 }

theorem run_rowOperations : (run rowGrammar rowOperations).tree = rowTree := by
  have hcreate : step ⟨.empty rowGrammar, []⟩ (.create 0) = ⟨rowSprout, [⟨0, 0⟩]⟩ := by
    have hcontains : (Tree.empty rowGrammar).grammar.contains 0 = true := rfl
    have hroot : ((Tree.empty rowGrammar).allocFilled none 0).1 = ⟨0, 0⟩ := rfl
    simp [step, Tree.perform, Tree.create, hcontains, hroot, Except.map, Change.map, createdBy,
      rowSprout]
  have hset : step ⟨rowSprout, [⟨0, 0⟩]⟩ (.setContent ⟨0, 0⟩ ['a', 'a']) = ⟨rowFilled, [⟨0, 0⟩]⟩ := by
    have hlookup : rowSprout.lookup? ⟨0, 0⟩ = some (rowSprout.node ⟨0, 0⟩) := rfl
    have hdefinition : (rowSprout.node ⟨0, 0⟩).definition = 0 := rfl
    refine step_setContent hlookup ?_
    rw [hdefinition]
    exact resolve_of_run rowGrammar_feasible run_row
  have hget : rowFilled.get ⟨0, 0⟩ = .ok (rowFilled.node ⟨0, 0⟩) := rfl
  simp only [run, rowOperations, List.foldl_cons, List.foldl_nil, hcreate, hset]
  simp [step, Tree.perform, Tree.addListener, hget, bind, Except.bind, Except.map, Change.map, rowTree]

/-- The first part of the row, which is a row itself, gets a second letter. -/
def rowLonger : Change Unit :=
  (Edit.propagateUp ⟨2, 0⟩ (Edit.assign ['a', 'a'] rowSplit ⟨2, 0⟩ ⟨rowTree, []⟩)).result ()

theorem setContent_row : (rowTree.setContent ⟨2, 0⟩ ['a', 'a']).result = .ok rowLonger := by
  have hlookup : rowTree.lookup? ⟨2, 0⟩ = some (rowTree.node ⟨2, 0⟩) := rfl
  have hdefinition : (rowTree.node ⟨2, 0⟩).definition = 0 := rfl
  refine setContent_of_split hlookup ?_
  rw [hdefinition]
  exact resolve_of_run rowGrammar_feasible run_row

end Session

end Tessera
