/-
**Failed calls.**

The steps of a call only look at the tree until nothing can fail any more, and change it afterwards.
So a call that fails stops before its first change: the tree where it stops is the tree where it
began, and no listener was called.

Main definitions:

* `Tessera.Execution.Looks`, `Tessera.Execution.Succeeds` — steps that change nothing, and steps that
  never fail;
* `Tessera.Execution.Atomic` — steps that change nothing when they fail;
* `Tessera.Execution.outcome` — what comes out of steps in the end.

Main results:

* `Tessera.Tree.execute_atomic` — **the steps of a call change nothing when they fail**;
* `Tessera.Tree.outcome_execute` — the steps of a call lead to its result;
* `Tessera.Session.failed_call` — a call that fails leaves everything as it was where it stops.
-/

import Tessera.Proofs.Tree.Sessions
import Tessera.Tree.Execution

set_option autoImplicit false

namespace Tessera

open Tessera.Tree

variable {t : Tree} {e e' : Edit} {fault : TreeError}

namespace Execution

variable {α β : Type} {p : Execution α} {k : α → Execution β}

/-! ### Steps in a row -/

/-- Steps that leave everything as it is, whether they stop or not. -/
def Looks (p : Execution α) : Prop :=
  ∀ e, (∃ a, p e = .ok a e) ∨ ∃ fault, p e = .error fault e

/-- Steps that never stop. -/
def Succeeds (p : Execution α) : Prop := ∀ e, ∃ a e', p e = .ok a e'

/-- Steps that leave everything as it was when they stop. -/
def Atomic (p : Execution α) : Prop := ∀ e fault e', p e = .error fault e' → e' = e

theorem bind_of_ok {a : α} (h : p e = .ok a e') : (p >>= k) e = k a e' := by
  simp only [bind, EStateM.bind, h]

theorem bind_of_error (h : p e = .error fault e') : (p >>= k) e = .error fault e' := by
  simp only [bind, EStateM.bind, h]

theorem looks_check (f : Tree → Except TreeError α) : Looks (check f) := by
  intro e
  unfold check
  cases f e.tree with
  | ok a => exact .inl ⟨a, rfl⟩
  | error fault => exact .inr ⟨fault, rfl⟩

theorem Succeeds.pure (a : α) : Succeeds (pure a : Execution α) := fun e => ⟨a, e, rfl⟩

theorem succeeds_change (f : Edit → α × Edit) : Succeeds (change f) := fun e =>
  ⟨(f e).1, (f e).2, rfl⟩

theorem Succeeds.bind (hp : Succeeds p) (hk : ∀ a, Succeeds (k a)) : Succeeds (p >>= k) := by
  intro e
  obtain ⟨a, e₁, h⟩ := hp e
  obtain ⟨b, e₂, h'⟩ := hk a e₁
  exact ⟨b, e₂, (bind_of_ok h).trans h'⟩

/-- Steps that never stop have nothing to leave as it was. -/
theorem Succeeds.atomic (hp : Succeeds p) : Atomic p := by
  intro e fault e' h
  obtain ⟨a, e₁, h'⟩ := hp e
  rw [h] at h'
  cases h'

theorem Looks.atomic (hp : Looks p) : Atomic p := by
  intro e fault e' h
  obtain ⟨a, h'⟩ | ⟨fault', h'⟩ := hp e
  · rw [h] at h'
    cases h'
  · rw [h] at h'
    exact (EStateM.Result.error.inj h').2

/-- Looking first does no harm. -/
theorem Looks.bind (hp : Looks p) (hk : ∀ a, Atomic (k a)) : Atomic (p >>= k) := by
  intro e fault e' h
  obtain ⟨a, h'⟩ | ⟨fault', h'⟩ := hp e
  · rw [bind_of_ok h'] at h
    exact hk a e fault e' h
  · rw [bind_of_error h'] at h
    exact (EStateM.Result.error.inj h).2.symm

/-- A row of steps stays one that leaves everything as it was under a change of its value. -/
theorem Atomic.map (hp : Atomic p) (f : α → β) : Atomic (f <$> p) := by
  intro e fault e' h
  cases h' : p e with
  | ok a e₁ => simp [Functor.map, EStateM.map, h'] at h
  | error fault' e₁ =>
      simp only [Functor.map, EStateM.map, h'] at h
      obtain ⟨-, rfl⟩ := EStateM.Result.error.inj h
      exact hp e fault' _ h'

/-! ### What comes out -/

/-- What comes out of steps that begin with a tree: the last value with the changed tree and its
notices, or the fault where they stop. -/
def outcome (p : Execution α) (t : Tree) : Except TreeError (Change α) :=
  match p ⟨t, []⟩ with
  | .ok a e => .ok (e.result a)
  | .error fault _ => .error fault

theorem outcome_check_bind (f : Tree → Except TreeError α) (k : α → Execution β) (t : Tree) :
    outcome (check f >>= k) t = f t >>= fun a => outcome (k a) t := by
  unfold outcome
  cases h : f t with
  | ok a => rw [bind_of_ok (show check f ⟨t, []⟩ = .ok a ⟨t, []⟩ by simp only [check, h])]; rfl
  | error fault =>
      rw [bind_of_error (show check f ⟨t, []⟩ = .error fault ⟨t, []⟩ by simp only [check, h])]; rfl

theorem outcome_map (f : α → β) (p : Execution α) (t : Tree) :
    outcome (f <$> p) t = (outcome p t).map (Change.map f) := by
  unfold outcome
  simp only [Functor.map, EStateM.map]
  cases p ⟨t, []⟩ <;> rfl

/-- Steps that leave everything as it was when they stop do so where the outcome is a fault. -/
theorem Atomic.of_outcome (hp : Atomic p) (h : outcome p t = .error fault) :
    p ⟨t, []⟩ = .error fault ⟨t, []⟩ := by
  unfold outcome at h
  cases h' : p ⟨t, []⟩ with
  | ok a e => rw [h'] at h; cases h
  | error fault' e =>
      rw [h'] at h
      rw [hp _ _ _ h', Except.error.inj h]

end Execution

open Execution

namespace Tree

variable (id : NodeId) (index : Nat) (text : Text) (d : DefId)

/-! ### The steps of each call -/

theorem createSteps_atomic : Atomic (createSteps d) :=
  (looks_check _).bind fun _ => (succeeds_change _).atomic

theorem outcome_createSteps : outcome (createSteps d) t = t.create d := by
  rw [createSteps, outcome_check_bind, Tree.create]
  split <;> rfl

theorem setContentSteps_atomic : Atomic (setContentSteps id text) :=
  (looks_check _).bind fun _ => (looks_check _).bind fun _ =>
    ((succeeds_change _).bind fun _ => succeeds_change _).atomic

theorem outcome_setContentSteps :
    outcome (setContentSteps id text) t = (t.setContent id text).result := by
  rw [setContentSteps, outcome_check_bind, Tree.setContent]
  cases t.get id with
  | error fault => rfl
  | ok n =>
      change outcome (split n.definition text >>= _) t = _
      rw [Execution.split, outcome_check_bind]
      simp only
      cases (resolve t.grammar n.definition text).split <;> rfl

/-- The steps of finding a separator only look. -/
theorem newSeparatorSteps_eq (rule : LoopRule) (len : Nat) :
    newSeparatorSteps id rule len = check fun t => t.newSeparator id rule len := by
  funext e
  unfold newSeparatorSteps check newSeparator
  cases hseparator : rule.separator with
  | none => rfl
  | some s =>
      obtain ⟨d, explicit⟩ := s
      by_cases hlen : 0 < len
      · simp only [if_pos hlen]
        cases htext : e.tree.separatorText id d explicit with
        | error fault => simp [bind, EStateM.bind, htext, Except.bind]
        | ok text =>
            cases hsplit : (resolve e.tree.grammar d text).split <;>
              simp [bind, EStateM.bind, Execution.check, Execution.split, htext, hsplit, Except.bind,
                pure, EStateM.pure, Except.pure]
      · simp only [if_neg hlen]
        rfl

theorem succeeds_spawnSeparator (found : Option (DefId × Text × Split)) :
    Succeeds (spawnSeparator id found) := by
  cases found with
  | none => exact Succeeds.pure _
  | some found =>
      unfold spawnSeparator
      exact succeeds_change _

theorem succeeds_finishLoop : Succeeds (finishLoop id) :=
  (succeeds_change _).bind fun _ => succeeds_change _

theorem insertSteps_atomic : Atomic (insertSteps id index text) := by
  refine (looks_check _).bind fun rule => (looks_check _).bind fun items => ?_
  refine (looks_check _).bind fun _ => (looks_check _).bind fun _ => (looks_check _).bind fun s => ?_
  rw [newSeparatorSteps_eq]
  refine (looks_check _).bind fun separator => Succeeds.atomic ?_
  -- from here on nothing fails
  exact (succeeds_change _).bind fun item => (succeeds_spawnSeparator id separator).bind fun _ =>
    (succeeds_change _).bind fun _ => (succeeds_finishLoop id).bind fun _ => Succeeds.pure item

theorem outcome_insertSteps : outcome (insertSteps id index text) t = t.insert id index text := by
  simp only [insertSteps, newSeparatorSteps_eq, Execution.split, outcome_check_bind, Tree.insert]
  refine congrArg _ (funext fun rule => congrArg _ (funext fun items => ?_))
  by_cases hindex : items.length < index
  · simp only [if_pos hindex]
    rfl
  simp only [if_neg hindex]
  refine congrArg (checkCount id rule.repetition (items.length + 1) >>= ·) (funext fun _ => ?_)
  refine congrArg ((resolve t.grammar rule.item text).split >>= ·) (funext fun s => ?_)
  refine congrArg (t.newSeparator id rule items.length >>= ·) (funext fun found => ?_)
  cases found <;> rfl

theorem pushSteps_atomic : Atomic (pushSteps id text) :=
  (looks_check _).bind fun items => insertSteps_atomic id items.length text

theorem outcome_pushSteps : outcome (pushSteps id text) t = t.push id text := by
  simp only [pushSteps, outcome_check_bind, outcome_insertSteps, Tree.push]

theorem removeSteps_atomic : Atomic (removeSteps id index) := by
  refine (looks_check _).bind fun rule => (looks_check _).bind fun items => ?_
  refine (looks_check _).bind fun _ => (looks_check _).bind fun _ => Succeeds.atomic ?_
  exact (succeeds_change _).bind fun _ => (succeeds_change _).bind fun _ => succeeds_finishLoop id

theorem outcome_removeSteps : outcome (removeSteps id index) t = t.remove id index := by
  simp only [removeSteps, outcome_check_bind, Tree.remove]
  refine congrArg _ (funext fun rule => congrArg _ (funext fun items => ?_))
  by_cases hindex : items.length ≤ index
  · simp only [if_pos hindex]
    rfl
  simp only [if_neg hindex]
  rfl

theorem alternativeSteps_atomic : Atomic (alternativeSteps id index) := by
  refine (looks_check _).bind fun n => ?_
  split
  · split
    · exact (looks_check fun _ => .error _).atomic
    · exact (Succeeds.pure _).atomic
    · exact ((succeeds_change _).bind fun _ => (succeeds_change _).bind fun _ =>
        Succeeds.pure _).atomic
  · exact (looks_check _).atomic

theorem outcome_alternativeSteps :
    outcome (alternativeSteps id index) t = t.alternative id index := by
  rw [alternativeSteps, outcome_check_bind, Tree.alternative]
  refine congrArg _ (funext fun n => ?_)
  cases n.body with
  | choice alternatives current =>
      cases hslot : alternatives[index]? with
      | none => simp only [hslot]; rfl
      | some slot => cases slot <;> simp only [hslot] <;> rfl
  | _ => rfl

theorem alternativeOfSteps_atomic : Atomic (alternativeOfSteps id d) := by
  refine (looks_check _).bind fun n => ?_
  split
  · exact (looks_check _).bind fun index => alternativeSteps_atomic id index
  · exact (looks_check _).atomic

theorem outcome_alternativeOfSteps :
    outcome (alternativeOfSteps id d) t = t.alternativeOf id d := by
  rw [alternativeOfSteps, outcome_check_bind, Tree.alternativeOf]
  refine congrArg _ (funext fun n => ?_)
  cases n.body with
  | choice alternatives current =>
      simp only [outcome_check_bind, outcome_alternativeSteps]
      generalize List.findIdx? (· == d) _ = found
      cases found <;> rfl
  | _ => rfl

theorem optionalChildSteps_atomic : Atomic (optionalChildSteps id) := by
  refine (looks_check _).bind fun n => ?_
  split
  · exact (Succeeds.pure _).atomic
  · exact ((succeeds_change _).bind fun _ => (succeeds_change _).bind fun _ =>
      Succeeds.pure _).atomic
  · exact (looks_check _).atomic

theorem outcome_optionalChildSteps : outcome (optionalChildSteps id) t = t.optionalChild id := by
  rw [optionalChildSteps, outcome_check_bind, Tree.optionalChild]
  refine congrArg _ (funext fun n => ?_)
  cases n.body with
  | optional child present => cases child <;> rfl
  | _ => rfl

theorem addListenerSteps_atomic : Atomic (addListenerSteps id) :=
  (looks_check _).bind fun _ => (looks_check _).bind fun _ =>
    ((succeeds_change _).bind fun _ => (succeeds_change _).bind fun _ => Succeeds.pure _).atomic

theorem outcome_addListenerSteps : outcome (addListenerSteps id) t = t.addListener id := by
  simp only [addListenerSteps, outcome_check_bind, Tree.addListener]
  rfl

theorem removeListenerSteps_atomic (l : ListenerId) : Atomic (removeListenerSteps id l) :=
  (looks_check _).bind fun _ => ((succeeds_change _).bind fun _ => Succeeds.pure _).atomic

theorem outcome_removeListenerSteps (l : ListenerId) :
    outcome (removeListenerSteps id l) t = t.removeListener id l := by
  rw [removeListenerSteps, outcome_check_bind, Tree.removeListener]
  rfl

/-! ### Calls -/

/-- **The steps of a call change nothing when they fail.** -/
theorem execute_atomic (op : Operation) : Atomic (execute op) := by
  cases op with
  | create d => exact (createSteps_atomic d).map _
  | setContent id text => exact (setContentSteps_atomic id text).map _
  | insert id index text => exact (insertSteps_atomic id index text).map _
  | push id text => exact (pushSteps_atomic id text).map _
  | remove id index => exact (removeSteps_atomic id index).map _
  | alternative id index => exact (alternativeSteps_atomic id index).map _
  | alternativeOf id d => exact (alternativeOfSteps_atomic id d).map _
  | optionalChild id => exact (optionalChildSteps_atomic id).map _
  | addListener id => exact (addListenerSteps_atomic id).map _
  | removeListener id l => exact (removeListenerSteps_atomic id l).map _

/-- The steps of a call lead to its result. -/
theorem outcome_execute (op : Operation) : outcome (execute op) t = t.perform op := by
  cases op with
  | create d => rw [execute, outcome_map, outcome_createSteps, perform]
  | setContent id text => rw [execute, outcome_map, outcome_setContentSteps, perform]
  | insert id index text => rw [execute, outcome_map, outcome_insertSteps, perform]
  | push id text => rw [execute, outcome_map, outcome_pushSteps, perform]
  | remove id index => rw [execute, outcome_map, outcome_removeSteps, perform]
  | alternative id index => rw [execute, outcome_map, outcome_alternativeSteps, perform]
  | alternativeOf id d => rw [execute, outcome_map, outcome_alternativeOfSteps, perform]
  | optionalChild id => rw [execute, outcome_map, outcome_optionalChildSteps, perform]
  | addListener id => rw [execute, outcome_map, outcome_addListenerSteps, perform]
  | removeListener id l => rw [execute, outcome_map, outcome_removeListenerSteps, perform]

end Tree

/-- **A call that fails leaves everything as it was.**  Where its steps stop, the tree is the one that
they began with, with every slot, the free slots and the number of the next listener, and no listener
was called. -/
theorem Session.failed_call {s : Session} {op : Operation}
    (hfail : s.tree.perform op = .error fault) :
    Tree.execute op ⟨s.tree, []⟩ = .error fault ⟨s.tree, []⟩ ∧ s.step op = s ∧
      s.calls op = [] := by
  refine ⟨(execute_atomic op).of_outcome ((outcome_execute op).trans hfail), ?_, ?_⟩
  · rw [Session.step, hfail]
  · rw [Session.calls, hfail]

set_option maxRecDepth 10000 in
theorem backtrackRun_row_nil :
    Query.backtrackRun ⟨rowGrammar, [], false⟩ 0 = .error .rejected := by
  with_unfolding_all rfl

/-- A row has at least one letter. -/
theorem resolve_row_nil :
    ∃ r, (resolve rowGrammar 0 []).result = .error (.rejected r) := by
  have hinfeasible : ¬ rowGrammar.feasible 0 [] = true := by decide +kernel
  have hrun : (Query.run ⟨rowGrammar, [], false⟩ 0).1 = .error .rejected :=
    (Query.run_eq_backtrackRun (Draft.build_valid rowDraft_build) rfl (by decide)).trans
      backtrackRun_row_nil
  rw [resolve, if_neg hinfeasible, resolveFully]
  split
  · next h => simp [h] at hrun
  · exact ⟨_, rfl⟩
  · next hne h =>
      rw [h] at hrun
      exact absurd (Except.error.inj hrun) hne

/-- The row stays as it is when the empty text is rejected. -/
theorem Session.failed_call_row :
    ∃ fault, Tree.execute (.setContent ⟨0, 0⟩ []) ⟨rowTree, []⟩ = .error fault ⟨rowTree, []⟩ := by
  obtain ⟨r, hr⟩ := resolve_row_nil
  have hlookup : rowTree.lookup? ⟨0, 0⟩ = some (rowTree.node ⟨0, 0⟩) := rfl
  have hfail : (run rowGrammar rowOperations).tree.perform (.setContent ⟨0, 0⟩ []) =
      .error (.incompatible r) := by
    have hsplit : (resolve rowTree.grammar (rowTree.node ⟨0, 0⟩).definition []).split =
        .error (.incompatible r) := by
      rw [Outcome.split, show (resolve rowTree.grammar (rowTree.node ⟨0, 0⟩).definition []).result =
        _ from hr]
      rfl
    rw [run_rowOperations, Tree.perform, Tree.setContent, get_eq_ok.2 hlookup]
    simp only [hsplit]
    rfl
  refine ⟨.incompatible r, ?_⟩
  rw [← run_rowOperations]
  exact (Session.failed_call hfail).1

end Tessera
