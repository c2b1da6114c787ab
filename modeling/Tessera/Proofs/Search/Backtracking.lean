/-
**The search without a memory.**

This is plain backtracking: the same candidates in the same order, with the same filters, but without
any memory of what failed.  There is no state at all; the only guard is that a part is not entered
inside of itself.  Like the search with a memory it stops altogether when its fuel runs out, so that
a rejection says that everything was tried.

Main definitions:

* `Tessera.Query.backtrack` — the search without a memory;
* `Tessera.Query.backtrackFrom` — the continuation of a loop without a memory.

Main results:

* `Tessera.Query.backtrack_settles` — plain backtracking ends;
* `Tessera.Query.backtrack_tracks` — it finds what the plain search finds.
-/

import Tessera.Proofs.Search.Memory
import Tessera.Proofs.Search.Termination

set_option autoImplicit false

namespace Tessera

/-- A search that remembers nothing. -/
abbrev Trial (α : Type) : Type := Attempt Unit α

namespace Query

open Attempt

/-! ### Plain backtracking -/

/-- Distributes the range from `cursor` to `stop` over items; the first of them has number `k`. -/
def backtrackSequence (q : Query) (parse : DefId → Nat → Nat → Trial Split) (stop : Nat)
    (follows : Array Filter) : List DefId → Nat → Nat → Trial (List Split)
  | [], _, cursor => if cursor = stop then pure [] else Attempt.reject
  | item :: items, k, cursor =>
      Attempt.firstOf
        (fun e => do
          let part ← parse item cursor e
          let parts ← backtrackSequence q parse stop follows items (k + 1) e
          return part :: parts)
        (fun _ => pure ())
        Attempt.reject
        ((q.ends item cursor stop).filter (follows.getD (k + 1) .everywhere).allows)

/-- The first of several alternatives that accepts the whole range. -/
def backtrackChoice (q : Query) (parse : DefId → Nat → Nat → Trial Split) (start stop : Nat) :
    List DefId → Nat → Trial Split
  | [], _ => Attempt.reject
  | alternative :: alternatives, index =>
      Attempt.orElse
        (if q.prune && !q.grammar.feasible alternative (q.slice start stop) then Attempt.reject
        else do
          let inner ← parse alternative start stop
          return .choice ⟨start, stop⟩ index inner)
        (backtrackChoice q parse start stop alternatives (index + 1))

/-- Searches for the elements of a loop that follow those of `trail`, which ends at `cursor`. -/
def backtrackFrom (q : Query) (parse : DefId → Nat → Nat → Trial Split) (p : LoopPlan) :
    Nat → List Split → Nat → Trial (List Split)
  | 0, _, _ => Attempt.stop .outOfFuel
  | fuel + 1, trail, cursor =>
      if p.isComplete trail cursor then pure trail.reverse
      else if p.isFull trail then Attempt.reject
      else
        Attempt.firstOf
          (fun e => do
            let part ← parse (p.element trail) cursor e
            backtrackFrom q parse p fuel (part :: trail) e)
          (fun _ => pure ())
          Attempt.reject
          (q.loopEnds p trail cursor)

/-- The split of a loop. -/
def backtrackLoop (q : Query) (parse : DefId → Nat → Nat → Trial Split) (p : LoopPlan) :
    Trial Split := do
  let elements ← q.backtrackFrom parse p p.fuel [] p.start
  return p.toSplit elements

/-- A leaf over a range, if it fits. -/
def backtrackLeaf (start stop : Nat) (fits : Bool) : Trial Split :=
  if fits then pure (.leaf ⟨start, stop⟩) else Attempt.reject

/-- Tries the structural rule of a definition on a range. -/
def backtrackShape (q : Query) (parse : DefId → Nat → Nat → Trial Split) (d : DefId)
    (start stop : Nat) : Trial Split :=
  match q.grammar.shape d with
  | .literal text => backtrackLeaf start stop (q.slice start stop == text)
  | .pattern _ => backtrackLeaf start stop (q.grammar.leafMatches d (q.slice start stop))
  | .empty => backtrackLeaf start stop (start == stop)
  | .sequence items => do
      let parts ← q.backtrackSequence parse stop (q.sequenceFollows d items.length start stop)
        items 0 start
      return .sequence ⟨start, stop⟩ parts
  | .choice alternatives => q.backtrackChoice parse start stop alternatives 0
  | .optional item _ =>
      if start = stop then pure (.absent ⟨start, stop⟩)
      else do
        let inner ← parse item start stop
        return .present ⟨start, stop⟩ inner
  | .loop item repetition =>
      q.backtrackLoop parse (q.loopPlan d item none repetition start stop)
  | .separated item separator _ repetition =>
      q.backtrackLoop parse (q.loopPlan d item (some separator) repetition start stop)
  | .alias _ _ => Attempt.reject
  | .forward _ => Attempt.reject
  | .withDefault _ _ => Attempt.reject

/-- Tries a definition on a range, inside of the parts `active`. -/
def backtrack (q : Query) : Nat → List Part → DefId → Nat → Nat → Trial Split
  | 0, _, _, _, _ => Attempt.stop .outOfFuel
  | fuel + 1, active, d, start, stop =>
      let part : Part := ⟨q.grammar.resolve d, start, stop⟩
      if active.contains part then Attempt.reject
      else q.backtrackShape (q.backtrack fuel (part :: active)) d start stop

/-- Searches for a split of the whole text without a memory. -/
def backtrackRun (q : Query) (d : DefId) : Except Abort Split :=
  let bytes := byteLength q.text
  (q.backtrack (partCount q.grammar.size bytes + 1) [] d 0 bytes ()).1

variable {q : Query} {parse : DefId → Nat → Nat → Trial Split} {active : List Part}

/-! ### Agreement with the plain search -/

/-- A search without a state yields what a family yields with enough fuel. -/
def Yields {ι α : Type} [SemilatticeSup ι] (a : Trial α) (f : ι → Option α) : Prop :=
  Tracks (fun _ _ => True) (fun _ => True) a f f

theorem weakens_nothing : Weakens fun (_ : Prop) (_ : Unit) => True := fun _ _ _ _ _ => trivial

theorem keeps_nothing : Keeps (fun (_ : Prop) (_ : Unit) => True) (pure ()) :=
  fun _ _ _ => ⟨rfl, trivial⟩

theorem Yields.candidates {ι α : Type} [SemilatticeSup ι] {ends : List Nat}
    {attempt : Nat → Trial α} {f : ι → Nat → Option α}
    (h : ∀ e ∈ ends, Yields (attempt e) fun i => f i e) :
    Yields (Attempt.firstOf attempt (fun _ => pure ()) Attempt.reject ends)
      fun i => ends.findSome? (f i) :=
  Tracks.firstOf weakens_nothing h (fun _ => keeps_nothing) fun hnone _ _ _ => ⟨trivial, hnone⟩

/-- A search of parts without a memory agrees with the plain search inside of the given parts. -/
def YieldsParts (q : Query) (parse : DefId → Nat → Nat → Trial Split) (active : List Part) : Prop :=
  ∀ d start stop, Yields (parse d start stop) fun fuel => q.plain fuel active d start stop

theorem backtrackSequence_yields (hparse : q.YieldsParts parse active) {stop : Nat}
    {follows : Array Filter} {items : List DefId} {k cursor : Nat} :
    Yields (q.backtrackSequence parse stop follows items k cursor)
      fun fuel => q.plainSequence (q.plain fuel active) stop follows items k cursor := by
  induction items generalizing k cursor with
  | nil =>
      rw [backtrackSequence]
      simp only [plainSequence]
      split
      · exact Tracks.pure weakens_nothing
      · exact Tracks.reject weakens_nothing
  | cons item items ih =>
      rw [backtrackSequence]
      simp only [plainSequence]
      refine Yields.candidates fun e _ => ?_
      have hnone : ∀ x y : Split, ∀ i, Never (fun fuel : Nat =>
          (q.plainSequence (q.plain fuel active) stop follows items (k + 1) e).map (x :: ·)) →
          (q.plainSequence (q.plain i active) stop follows items (k + 1) e).map (y :: ·) = none := by
        intro x y i h
        simpa using h i
      exact Tracks.bind weakens_nothing (hparse item cursor e)
        (fun part _ => Tracks.map weakens_nothing (part :: ·) ih) (fun x y i _ _ => hnone x y i)
        fun x y i _ _ => hnone x y i

theorem backtrackChoice_yields (hparse : q.YieldsParts parse active) {start stop : Nat}
    {alternatives : List DefId} {index : Nat} :
    Yields (q.backtrackChoice parse start stop alternatives index)
      fun fuel => q.plainChoice (q.plain fuel active) start stop alternatives index := by
  induction alternatives generalizing index with
  | nil => exact Tracks.reject weakens_nothing
  | cons a as ih =>
      rw [backtrackChoice]
      simp only [plainChoice]
      refine Tracks.orElse weakens_nothing ?_ ih
      split
      · exact Tracks.reject weakens_nothing
      · exact Tracks.map weakens_nothing _ (hparse a start stop)

/-- One more element, when the plain search is followed after each candidate for it. -/
theorem backtrackElement_yields (hparse : q.YieldsParts parse active) {p : LoopPlan} {n : Nat}
    {trail : List Split} {cursor e : Nat}
    (hrest : ∀ part, Yields (q.backtrackFrom parse p n (part :: trail) e) fun fuel : Nat × Nat =>
      q.plainExtend (q.plain fuel.1 active) p fuel.2 (part :: trail) e) :
    Yields (parse (p.element trail) cursor e >>= fun part =>
        q.backtrackFrom parse p n (part :: trail) e)
      fun fuel : Nat × Nat => (q.plain fuel.1 active (p.element trail) cursor e).bind fun part =>
        q.plainExtend (q.plain fuel.1 active) p fuel.2 (part :: trail) e := by
  have hfst : ∀ bound : Nat, ∃ b : Nat × Nat, ∀ k, b ≤ k → bound ≤ k.1 :=
    fun bound => ⟨(bound, 0), fun _ h => (Prod.le_def.1 h).1⟩
  have hother : ∀ (x y : Split) (fuel : Nat × Nat),
      Eventually (fun k : Nat × Nat => q.plain k.1 active (p.element trail) cursor e) x →
      q.plain fuel.1 active (p.element trail) cursor e = some y →
      Never (fun k : Nat × Nat => q.plainExtend (q.plain k.1 active) p k.2 (x :: trail) e) →
      q.plainExtend (q.plain fuel.1 active) p fuel.2 (y :: trail) e = none := by
    intro x y fuel hx hy hnone
    obtain ⟨_, hx⟩ := hx.exists
    exact plainExtend_none_of_span (fun fuel => q.plain fuel active) (plain_span hx) (plain_span hy)
      hnone fuel
  exact Tracks.bind weakens_nothing ((hparse _ cursor e).comp weakens_nothing hfst)
    (fun part _ => hrest part) hother hother

/-- The continuation of a loop yields what the plain search does, with fuel for the parts and for
the elements. -/
theorem backtrackFrom_yields (hparse : q.YieldsParts parse active) {p : LoopPlan} {n : Nat}
    {trail : List Split} {cursor : Nat} :
    Yields (q.backtrackFrom parse p n trail cursor) fun fuel : Nat × Nat =>
      q.plainExtend (q.plain fuel.1 active) p fuel.2 trail cursor := by
  induction n generalizing trail cursor with
  | zero => exact fun _ _ _ => trivial
  | succ n ih =>
      rw [backtrackFrom]
      split
      · next hcomplete =>
        have hfound : ∀ b m,
            q.plainExtend (q.plain b active) p (m + 1) trail cursor = some trail.reverse := by
          intro b m
          simp only [plainExtend, hcomplete, if_true]
        exact (Tracks.pure weakens_nothing).spend weakens_nothing
          (fun _ => rfl) hfound (fun _ => rfl) hfound
      next hcomplete =>
      rw [Bool.not_eq_true] at hcomplete
      split
      · next hfull =>
        refine (Tracks.reject weakens_nothing).congr ?_ ?_ <;> funext fuel <;>
          exact (plainExtend_full hcomplete hfull fuel.2).symm
      next hfull =>
      rw [Bool.not_eq_true] at hfull
      have hcandidates : Yields _ fun fuel : Nat × Nat =>
          (q.loopEnds p trail cursor).findSome? fun e =>
            (q.plain fuel.1 active (p.element trail) cursor e).bind fun part =>
              q.plainExtend (q.plain fuel.1 active) p fuel.2 (part :: trail) e :=
        Yields.candidates fun e _ => backtrackElement_yields hparse fun part => ih
      exact hcandidates.spend weakens_nothing (fun _ => rfl)
        (fun _ m => plainExtend_step hcomplete hfull m) (fun _ => rfl)
        fun _ m => plainExtend_step hcomplete hfull m

theorem backtrackLoop_yields (hparse : q.YieldsParts parse active) (p : LoopPlan) :
    Yields (q.backtrackLoop parse p) fun fuel => q.plainLoop (q.plain fuel active) p fuel := by
  have hboth : ∀ bound : Nat × Nat, ∃ b : Nat, ∀ k, b ≤ k → bound ≤ (k, k) :=
    fun bound => ⟨max bound.1 bound.2, fun k hk => Prod.le_def.2 (Nat.max_le.1 hk)⟩
  exact Tracks.map weakens_nothing p.toSplit
    (Tracks.comp weakens_nothing (backtrackFrom_yields hparse) hboth)

theorem backtrackShape_yields (hparse : q.YieldsParts parse active) (d : DefId)
    (start stop : Nat) :
    Yields (q.backtrackShape parse d start stop)
      fun fuel => q.plainShape (q.plain fuel active) fuel d start stop := by
  have hleaf : ∀ fits, Yields (backtrackLeaf start stop fits)
      fun _ : Nat => plainLeaf start stop fits := by
    intro fits
    cases fits with
    | true => exact Tracks.pure weakens_nothing
    | false => exact Tracks.reject weakens_nothing
  simp only [backtrackShape, plainShape]
  cases q.grammar.shape d with
  | literal text => exact hleaf _
  | pattern source => exact hleaf _
  | empty => exact hleaf _
  | sequence items => exact Tracks.map weakens_nothing _ (backtrackSequence_yields hparse)
  | choice alternatives => exact backtrackChoice_yields hparse
  | optional item quantifier =>
      dsimp only
      split
      · exact Tracks.pure weakens_nothing
      · exact Tracks.map weakens_nothing _ (hparse item start stop)
  | loop item repetition => exact backtrackLoop_yields hparse _
  | separated item separator default repetition => exact backtrackLoop_yields hparse _
  | «alias» target name => exact Tracks.reject weakens_nothing
  | forward target => exact Tracks.reject weakens_nothing
  | withDefault content target => exact Tracks.reject weakens_nothing

/-- **Plain backtracking finds what the plain search finds**, and rejects what it rejects. -/
theorem backtrack_yields (fuel : Nat) (active : List Part) :
    q.YieldsParts (q.backtrack fuel active) active := by
  induction fuel generalizing active with
  | zero => exact fun _ _ _ _ _ _ => trivial
  | succ fuel ih =>
      intro d start stop
      rw [backtrack]
      split
      · next hactive =>
        refine (Tracks.reject weakens_nothing).congr ?_ ?_ <;> funext n <;> cases n with
          | zero => rfl
          | succ n => simp only [plain, hactive, if_true]
      · next hactive =>
        have hplain : ∀ n, q.plain (n + 1) active d start stop =
            q.plainShape (q.plain n (⟨q.grammar.resolve d, start, stop⟩ :: active)) n d start stop :=
          fun n => if_neg hactive
        have hcover : ∀ n, q.plain n active d start stop = none ∨ ∃ m,
            q.plain n active d start stop =
              q.plainShape (q.plain m (⟨q.grammar.resolve d, start, stop⟩ :: active)) m d start
                stop := by
          rintro (_ | n)
          · exact .inl rfl
          · exact .inr ⟨n, hplain n⟩
        refine (backtrackShape_yields (ih _) d start stop).refuel weakens_nothing
          (fun bound => ⟨bound + 1, fun n hn => ?_⟩) hcover hcover
        obtain ⟨n, rfl⟩ : ∃ m, n = m + 1 := ⟨n - 1, by omega⟩
        exact ⟨n, by omega, hplain n, hplain n⟩

/-! ### Termination -/

section Settling

variable (hg : q.grammar.Valid) (hparse : q.SettlesParts parse)
include hg hparse

theorem backtrackSequence_settles {stop : Nat} {follows : Array Filter} {items : List DefId}
    {k cursor : Nat} (hitems : ∀ item ∈ items, item < q.grammar.size)
    (hrange : IsRange q.text cursor stop) :
    Settles (fun _ => True) (q.backtrackSequence parse stop follows items k cursor) := by
  induction items generalizing k cursor with
  | nil =>
      rw [backtrackSequence]
      split
      · exact Settles.pure trivial
      · exact Settles.reject
  | cons item items ih =>
      rw [backtrackSequence]
      refine Settles.firstOf (fun e he => ?_) (fun e => Settles.pure trivial) Settles.reject
      obtain ⟨hleft, hright⟩ :=
        isRange_of_mem_allEnds hg hrange (mem_allEnds_of_ends (List.mem_filter.1 he).1)
      refine Settles.bind (hparse item cursor e (hitems item List.mem_cons_self) hleft)
        fun part _ => Settles.bind (ih (fun i hi => hitems i (List.mem_cons_of_mem _ hi)) hright)
          fun parts _ => Settles.pure trivial

omit hg in
theorem backtrackChoice_settles {start stop : Nat} {alternatives : List DefId} {index : Nat}
    (halternatives : ∀ a ∈ alternatives, a < q.grammar.size) (hrange : IsRange q.text start stop) :
    Settles (fun s => s.span = ⟨start, stop⟩)
      (q.backtrackChoice parse start stop alternatives index) := by
  induction alternatives generalizing index with
  | nil => exact Settles.reject
  | cons a as ih =>
      rw [backtrackChoice]
      refine Settles.orElse ?_ (ih fun b hb => halternatives b (List.mem_cons_of_mem a hb))
      split
      · exact Settles.reject
      · exact Settles.bind (hparse a start stop (halternatives a List.mem_cons_self) hrange)
          fun inner _ => Settles.pure rfl

theorem backtrackFrom_settles {p : LoopPlan} (hitem : p.item < q.grammar.size)
    (hseparator : ∀ separator, p.separator = some separator → separator < q.grammar.size)
    {fuel : Nat} {trail : List Split} {cursor : Nat} (hrange : IsRange q.text cursor p.stop)
    (hfuel : p.measure trail cursor < fuel) :
    Settles (fun _ => True) (q.backtrackFrom parse p fuel trail cursor) := by
  induction fuel generalizing trail cursor with
  | zero => omega
  | succ fuel ih =>
      rw [backtrackFrom]
      split
      · exact Settles.pure trivial
      split
      · exact Settles.reject
      refine Settles.firstOf (fun e he => ?_) (fun e => Settles.pure trivial) Settles.reject
      obtain ⟨hleft, hright⟩ := isRange_of_mem_allEnds hg hrange (mem_allEnds_of_loopEnds he)
      refine Settles.bind
        (hparse _ cursor e (LoopPlan.element_lt hitem hseparator trail) hleft) fun part hpart => ?_
      have hless := LoopPlan.measure_lt (isUseful_of_loopEnds he) hleft.le hright.le hpart
      exact ih hright (by omega)

theorem backtrackLoop_settles {p : LoopPlan} (hitem : p.item < q.grammar.size)
    (hseparator : ∀ separator, p.separator = some separator → separator < q.grammar.size)
    (hrange : IsRange q.text p.start p.stop) :
    Settles (fun s => s.span = ⟨p.start, p.stop⟩) (q.backtrackLoop parse p) :=
  Settles.bind (backtrackFrom_settles hg hparse hitem hseparator hrange p.measure_lt_fuel)
    fun elements _ => Settles.pure (toSplit_span p elements)

theorem backtrackShape_settles {d : DefId} {start stop : Nat} (hrange : IsRange q.text start stop) :
    Settles (fun s => s.span = ⟨start, stop⟩) (q.backtrackShape parse d start stop) := by
  have hleaf : ∀ fits, Settles (fun s : Split => s.span = ⟨start, stop⟩)
      (backtrackLeaf start stop fits) := by
    intro fits
    cases fits with
    | true => exact Settles.pure rfl
    | false => exact Settles.reject
  have hmem : ∀ e ∈ (q.grammar.shape d).references, e < q.grammar.size :=
    fun e he => hg.references_shape he
  rw [backtrackShape]
  cases hshape : q.grammar.shape d with
  | literal text => exact hleaf _
  | pattern source => exact hleaf _
  | empty => exact hleaf _
  | sequence items =>
      rw [hshape] at hmem
      exact Settles.bind (backtrackSequence_settles hg hparse hmem hrange)
        fun parts _ => Settles.pure rfl
  | choice alternatives =>
      rw [hshape] at hmem
      exact backtrackChoice_settles hparse hmem hrange
  | optional item quantifier =>
      rw [hshape] at hmem
      dsimp only
      split
      · exact Settles.pure rfl
      · exact Settles.bind (hparse item start stop (hmem item List.mem_cons_self) hrange)
          fun inner _ => Settles.pure rfl
  | loop item repetition =>
      rw [hshape] at hmem
      exact backtrackLoop_settles hg hparse (p := q.loopPlan d item none repetition start stop)
        (hmem item List.mem_cons_self) (fun separator h => by simp [loopPlan] at h) hrange
  | separated item separator default repetition =>
      rw [hshape] at hmem
      refine backtrackLoop_settles hg hparse
        (p := q.loopPlan d item (some separator) repetition start stop)
        (hmem item List.mem_cons_self) (fun other h => ?_) hrange
      have : separator = other := by simpa [loopPlan] using h
      exact this ▸ hmem separator (List.mem_cons_of_mem item List.mem_cons_self)
  | «alias» target name => exact Settles.reject
  | forward target => exact Settles.reject
  | withDefault content target => exact Settles.reject

omit hparse in
/-- **Plain backtracking ends**, whatever the limits of the grammar are: inside of parts that are not
inside of themselves, fuel for the remaining parts suffices. -/
theorem backtrack_settles {fuel : Nat} {active : List Part} (hnodup : active.Nodup)
    (hactive : ∀ part ∈ active, part ∈ allParts q.grammar.size (byteLength q.text))
    (hfuel : partCount q.grammar.size (byteLength q.text) < fuel + active.length) :
    q.SettlesParts (q.backtrack fuel active) := by
  induction fuel generalizing active with
  | zero =>
      have := length_le_partCount hnodup hactive
      omega
  | succ fuel ih =>
      intro d start stop hd hrange
      rw [backtrack]
      split
      · exact Settles.reject
      next hfresh =>
      have hpart : (⟨q.grammar.resolve d, start, stop⟩ : Part) ∈
          allParts q.grammar.size (byteLength q.text) :=
        mem_allParts.2 ⟨hg.resolve_lt d hd, hrange.le, hrange.right.le⟩
      have hfresh : (⟨q.grammar.resolve d, start, stop⟩ : Part) ∉ active := by
        simpa using hfresh
      exact backtrackShape_settles hg (ih (List.nodup_cons.2 ⟨hfresh, hnodup⟩)
        (List.forall_mem_cons.2 ⟨hpart, hactive⟩) (by rw [List.length_cons]; omega)) hrange

end Settling

end Query

end Tessera
