/-
**The failures that a search meets.**

A search keeps one failure, the one that begins furthest into the text.  Here the same search is told
once more with an account of all failures that it meets, in order, each with the elements of the loop
in which it was met; nothing else is added, and the events are left out.  It is the search that leaves
out no candidate, so there are no filters.

The two searches go in step: they find the same splits, are rejected at the same points, remember the
same parts and refuse as often, and the failure that the search keeps is the last one of those that
begin furthest.

Main definitions:

* `Tessera.Met`, `Tessera.Chronicle` — the failures that were met;
* `Tessera.Query.tell`, `Tessera.Query.tellRun` — the search with an account of its failures;
* `Tessera.deepest?` — the last of the failures that begin furthest into the text;
* `Tessera.Attempt.InStep` — two attempts that do the same.

Main results:

* `Tessera.exists_lastDeepest` — which failure that is;
* `Tessera.Query.parse_inStep`, `Tessera.Query.run_inStep` — **the account is that of the search**.
-/

import Tessera.Proofs.Search.Pruning

set_option autoImplicit false

namespace Tessera

/-! ### Accounts -/

/-- A failure that was met, and the elements that had been found of the loop in which it was met. -/
structure Met where
  failure : Failure
  found : List Split

/-- What a search remembers, with an account of all failures that it met, the latest first. -/
structure Chronicle where
  failed : Std.HashSet Part
  refusals : Nat
  met : List Met

/-- An attempt with a second part of the state, which begins with `u` and is dropped in the end. -/
def Attempt.within {σ υ α β : Type} (a : Attempt (σ × υ) α) (u : υ) (w : α → β) : Attempt σ β :=
  fun s => ((a (s, u)).1.map w, (a (s, u)).2.1)

/-- Attempts that keep account. -/
abbrev Account (α : Type) : Type := Attempt Chronicle α

namespace Account

variable {α : Type}

/-- Takes a failure into account. -/
def note (f : Failure) (found : List Split) : Account Unit :=
  Attempt.update fun c => { c with met := ⟨f, found⟩ :: c.met }

/-- Takes a failure into account and gives the candidate up. -/
def fail (f : Failure) : Account α := note f [] >>= fun _ => Attempt.reject

end Account

/-- A search with an account for a split of a definition over a range. -/
abbrev Telling : Type := DefId → Nat → Nat → Account Split

namespace Query

variable (q : Query)

/-- Distributes the range from `cursor` to `stop` over items; the first of them has number `k`. -/
def tellSequenceFrom (tell : Telling) (d : DefId) (stop : Nat) :
    List DefId → Nat → Nat → Attempt (Chronicle × Std.HashSet (Nat × Nat)) (List Split)
  | [], _, cursor =>
      if cursor = stop then pure []
      else Attempt.onFirst (Account.fail ⟨d, cursor, stop, .trailingContent⟩)
  | item :: items, k, cursor => do
      if ← Attempt.inspect fun s => s.2.contains (k, cursor) then Attempt.reject
      else
        let ends := q.ends item cursor stop
        if ends.isEmpty then Attempt.onFirst (Account.fail ⟨item, cursor, stop, .mismatch⟩)
        else
          Attempt.firstOf
            (fun e => do
              let part ← Attempt.onFirst (tell item cursor e)
              let parts ← tellSequenceFrom tell d stop items (k + 1) e
              return part :: parts)
            (fun _ => pure ())
            (do
              Attempt.update fun s => (s.1, s.2.insert (k, cursor))
              Attempt.reject)
            ends

/-- The split of a sequence. -/
def tellSequence (tell : Telling) (d : DefId) (items : List DefId) (start stop : Nat) :
    Account Split :=
  Attempt.within (q.tellSequenceFrom tell d stop items 0 start) ∅ (.sequence ⟨start, stop⟩)

/-- The first of several alternatives that accepts the whole range. -/
def tellChoice (tell : Telling) (d : DefId) (start stop : Nat) : List DefId → Nat → Account Split
  | [], _ => Account.fail ⟨d, start, stop, .noAlternative⟩
  | alternative :: alternatives, index =>
      Attempt.orElse
        (do
          let inner ← tell alternative start stop
          return .choice ⟨start, stop⟩ index inner)
        (fun c => tellChoice tell d start stop alternatives (index + 1) c)

/-- Searches for the elements of a loop that follow those of `trail`. -/
def tellExtend (tell : Telling) (p : LoopPlan) :
    Nat → List Split → Nat → Attempt (Chronicle × Std.HashSet LoopPoint) (List Split)
  | 0, _, _ => Attempt.stop .outOfFuel
  | fuel + 1, trail, cursor =>
      if p.isComplete trail cursor then pure trail.reverse
      else do
        let giveUp : Attempt (Chronicle × Std.HashSet LoopPoint) (List Split) := do
          Attempt.update fun s => (s.1, s.2.insert (p.point trail cursor))
          Attempt.reject
        if ← Attempt.inspect fun s => s.2.contains (p.point trail cursor) then Attempt.reject
        else if p.isFull trail then
          if cursor < p.stop then
            Attempt.onFirst
              (Account.note ⟨p.definition, cursor, p.stop, .tooManyItems⟩ trail.reverse)
          giveUp
        else
          let ends := q.loopEnds p trail cursor
          if ends.isEmpty then
            Attempt.onFirst (Account.note (loopFailure p trail cursor) trail.reverse)
            giveUp
          else
            Attempt.firstOf
              (fun e => do
                let part ← Attempt.onFirst (tell (p.element trail) cursor e)
                tellExtend tell p fuel (part :: trail) e)
              (fun _ => pure ())
              giveUp
              ends

/-- The split of a loop. -/
def tellLoop (tell : Telling) (p : LoopPlan) : Account Split :=
  Attempt.within (q.tellExtend tell p p.fuel [] p.start) ∅ p.toSplit

/-- A leaf over a range: it fits or it is a mismatch. -/
def tellLeaf (d : DefId) (start stop : Nat) (fits : Bool) : Account Split :=
  if fits then pure (.leaf ⟨start, stop⟩) else Account.fail ⟨d, start, stop, .mismatch⟩

/-- Tries the structural rule of a definition on a range. -/
def tellShape (tell : Telling) (d : DefId) (start stop : Nat) : Account Split :=
  match q.grammar.shape d with
  | .literal text => tellLeaf d start stop (q.slice start stop == text)
  | .pattern _ => tellLeaf d start stop (q.grammar.leafMatches d (q.slice start stop))
  | .empty => tellLeaf d start stop (start == stop)
  | .sequence items => q.tellSequence tell d items start stop
  | .choice alternatives => tellChoice tell d start stop alternatives 0
  | .optional item _ =>
      if start = stop then pure (.absent ⟨start, stop⟩)
      else do
        let inner ← tell item start stop
        return .present ⟨start, stop⟩ inner
  | .loop item repetition => q.tellLoop tell (q.loopPlan d item none repetition start stop)
  | .separated item separator _ repetition =>
      q.tellLoop tell (q.loopPlan d item (some separator) repetition start stop)
  | .alias _ _ => Attempt.reject
  | .forward _ => Attempt.reject
  | .withDefault _ _ => Attempt.reject

/-- Tries a definition on a range, inside of the parts `active`. -/
def tell : Nat → List Part → Telling
  | 0, _, _, _, _ => Attempt.stop .outOfFuel
  | fuel + 1, active, d, start, stop => fun c =>
      let part : Part := ⟨q.grammar.resolve d, start, stop⟩
      if c.failed.contains part then (.error .rejected, c)
      else if active.contains part then
        (.error .rejected, { c with refusals := c.refusals + 1 })
      else if q.grammar.limits.recursionLimit.any fun limit => decide (limit ≤ active.length) then
        (.error .limitExceeded, c)
      else
        match q.tellShape (tell fuel (part :: active)) d start stop c with
        | (.ok split, c') => (.ok split, c')
        | (.error e, c') =>
            if e = .rejected ∧ c'.refusals = c.refusals then
              (.error e, { c' with failed := c'.failed.insert part })
            else (.error e, c')

/-- Searches for a split of the whole text, with an account. -/
def tellRun (d : DefId) : Except Abort Split × Chronicle :=
  let bytes := byteLength q.text
  q.tell (partCount q.grammar.size bytes + 1) [] d 0 bytes ⟨∅, 0, []⟩

end Query

/-! ### The failure that is kept -/

/-- Of the failures that begin furthest into the text the one that was met last; the latest failure
stands first. -/
def deepest? : List Met → Option Failure
  | [] => none
  | m :: older =>
      match deepest? older with
      | none => some m.failure
      | some f => if f.start ≤ m.failure.start then some m.failure else some f

/-- A failure is the last of those that begin furthest: those met later begin before it, and those
met earlier no further into the text. -/
def LastDeepest (met : List Met) (m : Met) : Prop :=
  ∃ later older, met = later ++ m :: older ∧ (∀ x ∈ later, x.failure.start < m.failure.start) ∧
    ∀ x ∈ older, x.failure.start ≤ m.failure.start

theorem LastDeepest.mem {met : List Met} {m : Met} (h : LastDeepest met m) : m ∈ met := by
  obtain ⟨later, older, rfl, -, -⟩ := h
  simp

theorem LastDeepest.le {met : List Met} {m x : Met} (h : LastDeepest met m) (hx : x ∈ met) :
    x.failure.start ≤ m.failure.start := by
  obtain ⟨later, older, rfl, hlater, holder⟩ := h
  rcases List.mem_append.1 hx with hx | hx
  · exact Nat.le_of_lt (hlater x hx)
  · rcases List.mem_cons.1 hx with rfl | hx
    · exact Nat.le_refl _
    · exact holder x hx

theorem deepest?_eq_none_iff {met : List Met} : deepest? met = none ↔ met = [] := by
  cases met with
  | nil => exact iff_of_true rfl rfl
  | cons m older =>
      rw [deepest?]
      split
      · simp
      · split <;> simp

/-- **Which failure is kept**: the last of those that begin furthest. -/
theorem exists_lastDeepest {met : List Met} {f : Failure} (h : deepest? met = some f) :
    ∃ m, LastDeepest met m ∧ m.failure = f := by
  induction met generalizing f with
  | nil => cases h
  | cons m older ih =>
      rw [deepest?] at h
      cases holder : deepest? older with
      | none =>
          rw [holder] at h
          obtain rfl := deepest?_eq_none_iff.1 holder
          exact ⟨m, ⟨[], [], rfl, by simp, by simp⟩, Option.some.inj h⟩
      | some old =>
          rw [holder] at h
          obtain ⟨x, hx, rfl⟩ := ih holder
          dsimp only at h
          split at h
          · next hle =>
            exact ⟨m, ⟨[], older, rfl, by simp, fun y hy => Nat.le_trans (hx.le hy) hle⟩,
              Option.some.inj h⟩
          · next hlt =>
            obtain ⟨later, older', rfl, hlater, holder'⟩ := hx
            refine ⟨x, ⟨m :: later, older', rfl, fun y hy => ?_, holder'⟩, Option.some.inj h⟩
            rcases List.mem_cons.1 hy with rfl | hy
            · omega
            · exact hlater y hy

/-! ### Attempts in step -/

namespace Attempt

variable {σ τ υ α β : Type} {R : σ → τ → Prop}

/-- From related states both attempts come to the same result and to related states. -/
def InStep (R : σ → τ → Prop) (a : Attempt σ α) (b : Attempt τ α) : Prop :=
  ∀ s t, R s t → (a s).1 = (b t).1 ∧ R (a s).2 (b t).2

/-- States with a second part, which is the same in both. -/
def Alongside (R : σ → τ → Prop) (s : σ × υ) (t : τ × υ) : Prop := R s.1 t.1 ∧ s.2 = t.2

namespace InStep

theorem pure (x : α) : InStep R (Pure.pure x) (Pure.pure x) := fun _ _ h => ⟨rfl, h⟩

theorem stop (e : Abort) : InStep R (Attempt.stop e : Attempt σ α) (Attempt.stop e) :=
  fun _ _ h => ⟨rfl, h⟩

theorem inspect {f : σ → α} {g : τ → α} (h : ∀ s t, R s t → f s = g t) :
    InStep R (Attempt.inspect f) (Attempt.inspect g) :=
  fun s t hst => ⟨congrArg Except.ok (h s t hst), hst⟩

theorem update {u : σ → σ} {v : τ → τ} (h : ∀ s t, R s t → R (u s) (v t)) :
    InStep R (Attempt.update u) (Attempt.update v) := fun s t hst => ⟨rfl, h s t hst⟩

/-- One of two attempts may change what is not related. -/
theorem update_left {u : σ → σ} (h : ∀ s t, R s t → R (u s) t) :
    InStep R (Attempt.update u) (Pure.pure ()) := fun s t hst => ⟨rfl, h s t hst⟩

theorem bind {a : Attempt σ α} {b : Attempt τ α} {f : α → Attempt σ β} {g : α → Attempt τ β}
    (h : InStep R a b) (hf : ∀ x, InStep R (f x) (g x)) : InStep R (a >>= f) (b >>= g) := by
  intro s t hst
  obtain ⟨hresult, hstate⟩ := h s t hst
  rw [bind_apply, bind_apply]
  rcases hb : b t with ⟨r, t'⟩
  rcases ha : a s with ⟨r', s'⟩
  rw [ha, hb] at hresult hstate
  obtain rfl : r' = r := hresult
  cases r' with
  | ok x => exact hf x s' t' hstate
  | error e => exact ⟨rfl, hstate⟩

theorem orElse {a a' : Attempt σ α} {b b' : Attempt τ α} (h : InStep R a b)
    (h' : InStep R a' b') : InStep R (Attempt.orElse a a') (Attempt.orElse b b') := by
  intro s t hst
  obtain ⟨hresult, hstate⟩ := h s t hst
  rw [Attempt.orElse, Attempt.orElse]
  rcases hb : b t with ⟨r, t'⟩
  rcases ha : a s with ⟨r', s'⟩
  rw [ha, hb] at hresult hstate
  obtain rfl : r' = r := hresult
  cases r' with
  | ok x => exact ⟨rfl, hstate⟩
  | error e =>
      cases e with
      | rejected => exact h' s' t' hstate
      | limitExceeded => exact ⟨rfl, hstate⟩
      | outOfFuel => exact ⟨rfl, hstate⟩

theorem firstOf {attempt : α → Attempt σ β} {attempt' : α → Attempt τ β}
    {undo : α → Attempt σ Unit} {undo' : α → Attempt τ Unit} {otherwise : Attempt σ β}
    {otherwise' : Attempt τ β} (h : ∀ x, InStep R (attempt x) (attempt' x))
    (hundo : ∀ x, InStep R (undo x) (undo' x)) (hlast : InStep R otherwise otherwise')
    (xs : List α) :
    InStep R (Attempt.firstOf attempt undo otherwise xs)
      (Attempt.firstOf attempt' undo' otherwise' xs) := by
  induction xs with
  | nil => exact hlast
  | cons x xs ih => exact (h x).orElse ((hundo x).bind fun _ => ih)

theorem onFirst {a : Attempt σ α} {b : Attempt τ α} (h : InStep R a b) :
    InStep (Alongside (υ := υ) R) (Attempt.onFirst a) (Attempt.onFirst b) := by
  rintro ⟨s, u⟩ ⟨t, v⟩ ⟨hst, huv⟩
  obtain ⟨hresult, hstate⟩ := h s t hst
  exact ⟨hresult, hstate, huv⟩

theorem within {a : Attempt (σ × υ) α} {b : Attempt (τ × υ) α} (h : InStep (Alongside R) a b)
    (u : υ) (w : α → β) : InStep R (Attempt.within a u w) (Attempt.within b u w) := by
  intro s t hst
  obtain ⟨hresult, hstate⟩ := h (s, u) (t, u) ⟨hst, rfl⟩
  exact ⟨congrArg (Except.map w) hresult, hstate.1⟩

/-- Both remember the same point as impossible. -/
theorem giveUp [BEq υ] [Hashable υ] (point : υ) :
    InStep (Alongside R)
      (do
        Attempt.update fun s => (s.1, s.2.insert point)
        Attempt.reject : Attempt (σ × Std.HashSet υ) α)
      (do
        Attempt.update fun s => (s.1, s.2.insert point)
        Attempt.reject) :=
  .bind (.update fun _ _ h => ⟨h.1, congrArg (Std.HashSet.insert · point) h.2⟩) fun _ =>
    .stop .rejected

end InStep

end Attempt

/-! ### The account of a search -/

/-- A search and an account that remember the same; the failure that is kept is the last of those that
begin furthest. -/
structure Recounts (s : SearchState) (c : Chronicle) : Prop where
  failed : s.failed = c.failed
  refusals : s.refusals = c.refusals
  furthest : s.furthest = deepest? c.met

namespace Recounts

variable {s : SearchState} {c : Chronicle}

theorem start : Recounts .start ⟨∅, 0, []⟩ := ⟨rfl, rfl, rfl⟩

theorem happen (h : Recounts s c) (e : Event) : Recounts (s.happen e) c :=
  ⟨h.failed, h.refusals, h.furthest⟩

theorem record (h : Recounts s c) (f : Failure) (found : List Split) :
    Recounts (s.record f) { c with met := ⟨f, found⟩ :: c.met } := by
  obtain ⟨hfailed, hrefusals, hfurthest⟩ := h
  rw [SearchState.record, hfurthest]
  cases hdeepest : deepest? c.met with
  | none => exact ⟨hfailed, hrefusals, by simp [deepest?, hdeepest]⟩
  | some old =>
      dsimp only
      split
      · next hle => exact ⟨hfailed, hrefusals, by simp [deepest?, hdeepest, hle]⟩
      · next hlt => exact ⟨hfailed, hrefusals, by simp [deepest?, hdeepest, hlt, hfurthest]⟩

theorem refuse (h : Recounts s c) : Recounts s.refuse { c with refusals := c.refusals + 1 } :=
  ⟨h.failed, congrArg (· + 1) h.refusals, h.furthest⟩

theorem giveUp (h : Recounts s c) (part : Part) :
    Recounts (s.giveUp part) { c with failed := c.failed.insert part } :=
  ⟨congrArg (Std.HashSet.insert · part) h.failed, h.refusals, h.furthest⟩

end Recounts

open Attempt

/-- Events do not show in an account. -/
theorem emit_inStep (e : Event) : InStep Recounts (Search.emit e) (pure ()) :=
  .update_left fun _ _ h => h.happen e

theorem note_inStep (f : Failure) (found : List Split) :
    InStep Recounts (Search.note f) (Account.note f found) := .update fun _ _ h => h.record f found

theorem fail_inStep {α : Type} (f : Failure) :
    InStep Recounts (Search.fail f : Search α) (Account.fail f) :=
  (note_inStep f []).bind fun _ => .stop .rejected

namespace Query

variable {q : Query} {parse : Parse} {tell : Telling}

section Shapes

variable (hprune : q.prune = false)
  (hparse : ∀ d start stop, InStep Recounts (parse d start stop) (tell d start stop))
include hparse

theorem sequenceFrom_inStep {d : DefId} {stop : Nat} {follows : Array Filter}
    (hfollows : ∀ k, follows.getD k .everywhere = .everywhere) {items : List DefId}
    {k cursor : Nat} :
    InStep (Alongside Recounts) (q.sequenceFrom parse d stop follows items k cursor)
      (q.tellSequenceFrom tell d stop items k cursor) := by
  induction items generalizing k cursor with
  | nil =>
      rw [sequenceFrom, tellSequenceFrom]
      split
      · exact .pure []
      · exact (fail_inStep _).onFirst
  | cons item items ih =>
      rw [sequenceFrom, tellSequenceFrom]
      simp only [hfollows, filter_everywhere]
      refine .bind (.inspect fun s t h => by rw [h.2]) fun known => ?_
      split
      · exact .stop .rejected
      split
      · exact (fail_inStep _).onFirst
      refine .firstOf (fun e => ?_) (fun e => (emit_inStep _).onFirst) ?_ _
      · refine (hparse item cursor e).onFirst.bind fun part => ?_
        exact ih.bind fun parts => .pure _
      · exact .giveUp (k, cursor)

include hprune

omit hprune hparse in
theorem sequence_eq_within {d : DefId} {items : List DefId} {start stop : Nat} :
    q.sequence parse d items start stop =
      Attempt.within (q.sequenceFrom parse d stop (q.sequenceFollows d items.length start stop) items
        0 start) ∅ (.sequence ⟨start, stop⟩) := by
  funext s
  rw [sequence, Attempt.within]
  split
  · next hr => rw [hr]; rfl
  · next hr => rw [hr]; rfl

theorem sequence_inStep {d : DefId} {items : List DefId} {start stop : Nat} :
    InStep Recounts (q.sequence parse d items start stop)
      (q.tellSequence tell d items start stop) := by
  have hfollows := sequenceFollows_unpruned hprune d items.length start stop
  rw [sequence_eq_within]
  exact (sequenceFrom_inStep hparse hfollows).within ∅ (Split.sequence ⟨start, stop⟩)

theorem choice_inStep {d : DefId} {start stop : Nat} {alternatives : List DefId} {index : Nat} :
    InStep Recounts (q.choice parse d start stop alternatives index)
      (tellChoice tell d start stop alternatives index) := by
  induction alternatives generalizing index with
  | nil => exact fail_inStep _
  | cons a as ih =>
      rw [choice, tellChoice, hprune]
      exact .orElse ((hparse a start stop).bind fun inner => .pure _) ih

omit hprune in
theorem extend_inStep {p : LoopPlan} {fuel : Nat} {trail : List Split} {cursor : Nat} :
    InStep (Alongside Recounts) (q.extend parse p fuel trail cursor)
      (q.tellExtend tell p fuel trail cursor) := by
  induction fuel generalizing trail cursor with
  | zero => exact .stop .outOfFuel
  | succ fuel ih =>
      rw [extend, tellExtend]
      split
      · exact .pure _
      refine .bind (.inspect fun s t h => by rw [h.2]) fun known => ?_
      split
      · exact .stop .rejected
      split
      · split
        · exact (note_inStep _ _).onFirst.bind fun _ => .giveUp _
        · exact .giveUp _
      dsimp only
      split
      · next hnone =>
        -- with no end to try there is nothing left but to give up
        rw [List.isEmpty_iff.1 hnone]
        exact (note_inStep _ _).onFirst.bind fun _ => .giveUp _
      · refine .firstOf (fun e => ?_) (fun e => (emit_inStep _).onFirst) (.giveUp _) _
        exact (hparse _ cursor e).onFirst.bind fun part => ih

omit hprune hparse in
theorem loop_eq_within {p : LoopPlan} :
    q.loop parse p = Attempt.within (q.extend parse p p.fuel [] p.start) ∅ p.toSplit := by
  funext s
  rw [loop, Attempt.within]
  split
  · next hr => rw [hr]; rfl
  · next hr => rw [hr]; rfl

omit hprune in
theorem loop_inStep (p : LoopPlan) : InStep Recounts (q.loop parse p) (q.tellLoop tell p) := by
  rw [loop_eq_within]
  exact (extend_inStep hparse).within ∅ p.toSplit

theorem parseShape_inStep (d : DefId) (start stop : Nat) :
    InStep Recounts (q.parseShape parse d start stop) (q.tellShape tell d start stop) := by
  have hleaf : ∀ fits, InStep Recounts (leaf d start stop fits) (tellLeaf d start stop fits) := by
    intro fits
    cases fits with
    | true => exact .pure _
    | false => exact fail_inStep _
  rw [parseShape, tellShape]
  cases q.grammar.shape d with
  | literal text => exact hleaf _
  | pattern source => exact hleaf _
  | empty => exact hleaf _
  | sequence items => exact sequence_inStep hprune hparse
  | choice alternatives => exact choice_inStep hprune hparse
  | optional item quantifier =>
      dsimp only
      split
      · exact .pure _
      · exact (hparse item start stop).bind fun inner => .pure _
  | loop item repetition => exact loop_inStep hparse _
  | separated item separator default repetition => exact loop_inStep hparse _
  | «alias» target name => exact .stop .rejected
  | forward target => exact .stop .rejected
  | withDefault content target => exact .stop .rejected

end Shapes

/-- **The account goes along with the search.** -/
theorem parse_inStep (hprune : q.prune = false) (fuel : Nat) (active : List Part) (d : DefId)
    (start stop : Nat) :
    InStep Recounts (q.parse fuel active d start stop) (q.tell fuel active d start stop) := by
  induction fuel generalizing active d start stop with
  | zero => exact .stop .outOfFuel
  | succ fuel ih =>
      intro s c h
      rw [parse, tell]
      dsimp only
      rw [h.failed]
      split
      · exact ⟨rfl, h⟩
      split
      · exact ⟨rfl, h.refuse⟩
      split
      · exact ⟨rfl, h⟩
      obtain ⟨hresult, hstate⟩ := parseShape_inStep hprune
        (ih (⟨q.grammar.resolve d, start, stop⟩ :: active)) d start stop _ c
        (h.happen (.enter d start stop))
      rcases hr : q.parseShape (q.parse fuel (⟨q.grammar.resolve d, start, stop⟩ :: active)) d start
        stop (s.happen (.enter d start stop)) with ⟨r, s'⟩
      rcases hr' : q.tellShape (q.tell fuel (⟨q.grammar.resolve d, start, stop⟩ :: active)) d start
        stop c with ⟨r', c'⟩
      rw [hr, hr'] at hresult hstate
      obtain rfl : r = r' := hresult
      cases r with
      | ok split => exact ⟨rfl, hstate.happen _⟩
      | error e =>
          have hrefusals : (s'.happen (.reject d start stop)).refusals = c'.refusals :=
            hstate.refusals
          dsimp only
          rw [hrefusals, h.refusals]
          split
          · exact ⟨rfl, (hstate.happen _).giveUp _⟩
          · exact ⟨rfl, hstate.happen _⟩

/-- **A search of a whole text has the result of its account**, and it keeps the last of the failures
that begin furthest. -/
theorem run_inStep (hprune : q.prune = false) (d : DefId) :
    (q.run d).1 = (q.tellRun d).1 ∧ Recounts (q.run d).2 (q.tellRun d).2 :=
  parse_inStep hprune _ [] d 0 _ _ _ .start

end Query

end Tessera
