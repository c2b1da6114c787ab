/-
**Remembering failures changes nothing.**

The search with a memory and plain backtracking both end, and both agree with the same family of
plain searches, so they give the same result.

Main definitions:

* `Tessera.Describes` — a result is the one that a family of functions arrives at;
* `Tessera.Attempt.SameFate` — two attempts succeed in the same states.

Main results:

* `Tessera.Query.run_describes` — the result of a search is that of the plain search;
* `Tessera.Query.backtrackFrom_point` — a point of a loop determines whether it can be completed;
* `Tessera.Query.run_eq_backtrackRun` — the result of a search is that of plain backtracking;
* `Tessera.memory_invisible` — **the memory of a search does not show**.
-/

import Tessera.Proofs.Search.Backtracking

set_option autoImplicit false

namespace Tessera

/-! ### Results of families -/

section Describes

variable {ι α : Type} [SemilatticeSup ι]

/-- The result is the value that the family yields with enough fuel, or a rejection when it never
yields one. -/
def Describes (r : Except Abort α) (f : ι → Option α) : Prop :=
  match r with
  | .ok x => Eventually f x
  | .error e => e = .rejected ∧ Never f

theorem Eventually.unique {f : ι → Option α} {x y : α} (hx : Eventually f x) (hy : Eventually f y) :
    x = y := by
  obtain ⟨b, hx⟩ := hx
  obtain ⟨c, hy⟩ := hy
  exact Option.some.inj ((hx (b ⊔ c) le_sup_left).symm.trans (hy (b ⊔ c) le_sup_right))

theorem Eventually.not_never {f : ι → Option α} {x : α} (hx : Eventually f x) : ¬ Never f := by
  intro hnone
  obtain ⟨i, hi⟩ := hx.exists
  simp [hnone i] at hi

/-- A family arrives at one result alone. -/
theorem Describes.unique {r r' : Except Abort α} {f : ι → Option α} (h : Describes r f)
    (h' : Describes r' f) : r = r' := by
  match r, r' with
  | .ok x, .ok y => rw [Eventually.unique h h']
  | .ok x, .error e => exact absurd h'.2 (Eventually.not_never h)
  | .error e, .ok y => exact absurd h.2 (Eventually.not_never h')
  | .error e, .error e' => rw [h.1, h'.1]

/-- A tracked result that settles is described. -/
theorem Attempt.Tracked.describes {σ : Type} {K : Prop → σ → Prop} {fails : σ → Prop} {H : Prop}
    {f g : ι → Option α} {P : α → Prop} {r : Except Abort α} {s : σ}
    (h : Attempt.Tracked K fails H f g r s) (hr : Attempt.Settled P r) : Describes r f := by
  match r with
  | .ok x => exact h.2
  | .error .rejected => exact ⟨rfl, h.2⟩
  | .error .limitExceeded => exact absurd (show Abort.limitExceeded = .rejected from hr) (by simp)
  | .error .outOfFuel => exact absurd (show Abort.outOfFuel = .rejected from hr) (by simp)

end Describes

/-! ### Attempts with the same fate -/

namespace Attempt

variable {α β : Type}

/-- The attempts end in the same way, except that they may find different values. -/
def SameFate (a b : Trial α) : Prop := ((a ()).1.map fun _ => ()) = ((b ()).1.map fun _ => ())

theorem SameFate.bind {a : Trial α} {f g : α → Trial β} (h : ∀ x, SameFate (f x) (g x)) :
    SameFate (a >>= f) (a >>= g) := by
  rw [SameFate, bind_apply, bind_apply]
  match a () with
  | (.ok x, ()) => exact h x
  | (.error e, ()) => rfl

theorem SameFate.firstOf {attempt attempt' : α → Trial β} {as : List α}
    (h : ∀ a, SameFate (attempt a) (attempt' a)) :
    SameFate (Attempt.firstOf attempt (fun _ => pure ()) Attempt.reject as)
      (Attempt.firstOf attempt' (fun _ => pure ()) Attempt.reject as) := by
  induction as with
  | nil => rfl
  | cons a as ih =>
      have ha := h a
      simp only [SameFate, Attempt.firstOf, Attempt.orElse] at ha ⊢
      rcases hr : attempt a () with ⟨e | x, ⟨⟩⟩
      · rcases hr' : attempt' a () with ⟨e' | y, ⟨⟩⟩
        · have : e = e' := by simpa [hr, hr', Except.map] using ha
          subst this
          cases e with
          | rejected => exact ih
          | limitExceeded => rfl
          | outOfFuel => rfl
        · simp [hr, hr', Except.map] at ha
      · rcases hr' : attempt' a () with ⟨e' | y, ⟨⟩⟩
        · simp [hr, hr', Except.map] at ha
        · rfl

end Attempt

open Attempt

namespace Query

variable {q : Query}

/-! ### Points -/

theorem loopEnds_congr {p : LoopPlan} {trail trail' : List Split} {cursor : Nat}
    (h : p.point trail cursor = p.point trail' cursor) :
    q.loopEnds p trail cursor = q.loopEnds p trail' cursor := by
  have huseful : p.isUseful trail cursor = p.isUseful trail' cursor :=
    funext fun e => LoopPlan.isUseful_congr h
  simp only [loopEnds, LoopPlan.element_congr h, LoopPlan.expectsSeparator_congr h, huseful,
    LoopPlan.follows_congr h]

/-- **A point determines whether a loop can be completed**, whatever the parts are. -/
theorem backtrackFrom_point {parse : DefId → Nat → Nat → Trial Split} {p : LoopPlan} {fuel : Nat}
    {trail trail' : List Split} {cursor : Nat}
    (h : p.point trail cursor = p.point trail' cursor) :
    SameFate (q.backtrackFrom parse p fuel trail cursor)
      (q.backtrackFrom parse p fuel trail' cursor) := by
  induction fuel generalizing trail trail' cursor with
  | zero => rfl
  | succ fuel ih =>
      rw [backtrackFrom, backtrackFrom, ← LoopPlan.isComplete_congr h, ← LoopPlan.isFull_congr h]
      split
      · rfl
      split
      · rfl
      rw [← loopEnds_congr h, ← LoopPlan.element_congr h]
      exact SameFate.firstOf fun e => SameFate.bind fun part => ih (LoopPlan.point_cons_congr h rfl)

/-! ### Whole texts -/

theorem knows_start : q.Knows 0 True SearchState.start :=
  ⟨fun _ h => absurd h Std.HashSet.not_mem_empty, Nat.zero_le _, fun _ => trivial⟩

theorem run_tracked (hg : q.grammar.Valid) (d : DefId) :
    Tracked (q.Knows 0) q.Sound True (fun fuel => q.plain fuel [] d 0 (byteLength q.text))
      (fun fuel => q.free fuel d 0 (byteLength q.text)) (q.run d).1 (q.run d).2 :=
  parse_faithful hg.resolve_resolve _ [] 0 d 0 _ True _ knows_start

/-- What the search finds, the plain search finds, also when the nesting is limited. -/
theorem run_ok (hg : q.grammar.Valid) {d : DefId} {s : Split} (h : (q.run d).1 = .ok s) :
    ∃ fuel, q.plain fuel [] d 0 (byteLength q.text) = some s := by
  have htracked := run_tracked hg d
  rw [h] at htracked
  exact htracked.2.exists

/-- The result of a search without a limit is that of the plain search. -/
theorem run_describes (hg : q.grammar.Valid) (hlimit : q.grammar.limits.recursionLimit = none)
    {d : DefId} (hd : d < q.grammar.size) :
    Describes (q.run d).1 fun fuel => q.plain fuel [] d 0 (byteLength q.text) :=
  (run_tracked hg d).describes (run_settles hg hlimit hd)

/-- Plain backtracking ends with a split or a rejection. -/
theorem backtrackRun_settled (hg : q.grammar.Valid) {d : DefId} (hd : d < q.grammar.size) :
    Settled (fun s => s.span = ⟨0, byteLength q.text⟩) (q.backtrackRun d) :=
  backtrack_settles hg List.nodup_nil (by simp) (by simp) d 0 _ hd (IsRange.whole q.text) ()

/-- The result of plain backtracking is that of the plain search. -/
theorem backtrackRun_describes (hg : q.grammar.Valid) {d : DefId} (hd : d < q.grammar.size) :
    Describes (q.backtrackRun d) fun fuel => q.plain fuel [] d 0 (byteLength q.text) :=
  (backtrack_yields _ [] d 0 _ True () trivial).describes (backtrackRun_settled hg hd)

/-- The search with a memory and plain backtracking have the same result. -/
theorem run_eq_backtrackRun (hg : q.grammar.Valid)
    (hlimit : q.grammar.limits.recursionLimit = none) {d : DefId} (hd : d < q.grammar.size) :
    (q.run d).1 = q.backtrackRun d :=
  (run_describes hg hlimit hd).unique (backtrackRun_describes hg hd)

/-- After every search, whatever is remembered as impossible is. -/
theorem run_sound (hg : q.grammar.Valid) (d : DefId) : q.Sound (q.run d).2 := by
  have h := run_tracked hg d
  match hr : (q.run d).1 with
  | .ok s => rw [hr] at h; exact h.1.1
  | .error .rejected => rw [hr] at h; exact h.1.1
  | .error .limitExceeded => rw [hr] at h; exact h
  | .error .outOfFuel => rw [hr] at h; exact h

/-- A part that is remembered as impossible is not accepted inside of any parts. -/
theorem backtrack_ne_ok_of_failed (hg : q.grammar.Valid) {d : DefId} {part : Part}
    (h : part ∈ (q.run d).2.failed) (active : List Part) (fuel : Nat) (s : Split) :
    (q.backtrack fuel active part.definition part.start part.stop ()).1 ≠ .ok s := by
  intro hok
  have hyields := backtrack_yields (q := q) fuel active part.definition part.start part.stop True ()
    trivial
  rw [hok] at hyields
  refine Eventually.not_never hyields.2 fun n => ?_
  exact plain_eq_none_of_free rfl (run_sound hg d part h) n active

end Query

/-- **The memory of a search does not show.**  For every grammar without a recursion limit, with and
without pruning, plain backtracking ends and the search with a memory has the same result.  A part
that is remembered as impossible is not accepted inside of any parts, and a point of a loop
determines whether the loop can be completed. -/
theorem memory_invisible {draft : Draft} {g : Grammar} (hbuild : draft.build = .ok g)
    (hlimit : g.limits.recursionLimit = none) {d : DefId} (hd : d < g.size) (text : Text)
    (prune : Bool) :
    let q : Query := ⟨g, text, prune⟩
    Settled (fun s => s.span = ⟨0, byteLength text⟩) (q.backtrackRun d) ∧
      (q.run d).1 = q.backtrackRun d ∧
      (∀ part ∈ (q.run d).2.failed, ∀ active fuel split,
        (q.backtrack fuel active part.definition part.start part.stop ()).1 ≠ .ok split) ∧
      ∀ parse p fuel trail trail' cursor, p.point trail cursor = p.point trail' cursor →
        SameFate (q.backtrackFrom parse p fuel trail cursor)
          (q.backtrackFrom parse p fuel trail' cursor) := by
  intro q
  have hg : q.grammar.Valid := Draft.build_valid hbuild
  exact ⟨Query.backtrackRun_settled hg hd, Query.run_eq_backtrackRun hg hlimit hd,
    fun part hpart => Query.backtrack_ne_ok_of_failed hg hpart,
    fun parse p fuel trail trail' cursor => Query.backtrackFrom_point⟩

/-- The split of a row of two letters. -/
def rowSplit : Split :=
  .choice ⟨0, 2⟩ 0 (.sequence ⟨0, 2⟩ [.choice ⟨0, 1⟩ 1 (.leaf ⟨0, 1⟩), .leaf ⟨1, 2⟩])

set_option maxRecDepth 10000 in
theorem backtrackRun_row :
    Query.backtrackRun ⟨rowGrammar, ['a', 'a'], true⟩ 0 = .ok rowSplit := by
  with_unfolding_all rfl

theorem run_row : (Query.run ⟨rowGrammar, ['a', 'a'], true⟩ 0).1 = .ok rowSplit :=
  (Query.run_eq_backtrackRun (Draft.build_valid rowDraft_build) rfl (by decide)).trans
    backtrackRun_row

/-- Rows are left-recursive. -/
theorem memory_invisible_row :
    rowDraft.build = .ok rowGrammar ∧
      (Query.run ⟨rowGrammar, ['a', 'a'], true⟩ 0).1 = .ok rowSplit :=
  ⟨rowDraft_build, (memory_invisible rowDraft_build rfl (by decide) ['a', 'a'] true).2.1.trans
    backtrackRun_row⟩

end Tessera
