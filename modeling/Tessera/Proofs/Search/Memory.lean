/-
**What a search remembers is true.**

A part is remembered as impossible when it was rejected and nothing was refused on the way.  Then
nothing around it played a role, so the free search rejects it too, and with it the plain search
inside of all other parts.  Items and cursors of a sequence, and points of a loop, are remembered
only while the parts around stay the same, so they need not be impossible everywhere; but as long as
nothing was refused they are.

The proof is about what a state knows: relative to the number of refusals at some earlier time, a
state knows a proposition that holds if no more were counted since.  All searches of parts are
compared at once with the plain search inside of the same parts, and with the free search.

Main definitions:

* `Tessera.Query.Sound` — everything remembered as impossible is rejected by the free search;
* `Tessera.Query.Knows` — what a state knows if nothing was refused since;
* `Tessera.Query.Faithful` — a search of parts agrees with the plain search.

Main results:

* `Tessera.Query.parse_faithful` — **the search with its memory agrees with the plain search**.
-/

import Tessera.Proofs.Search.Attempts
import Tessera.Proofs.Search.Plain

set_option autoImplicit false

namespace Tessera

namespace Query

open Attempt

variable {q : Query}

/-! ### Knowledge -/

/-- Every part that is remembered as impossible is one. -/
def Sound (q : Query) (s : SearchState) : Prop :=
  ∀ part ∈ s.failed, Never fun fuel => q.free fuel part.definition part.start part.stop

/-- The state is sound, at least `refusals` refusals were counted, and `H` holds if no more were. -/
def Knows (q : Query) (refusals : Nat) (H : Prop) (s : SearchState) : Prop :=
  q.Sound s ∧ refusals ≤ s.refusals ∧ (s.refusals = refusals → H)

theorem weakens_knows (q : Query) (refusals : Nat) : Weakens (q.Knows refusals) :=
  fun _ _ _ h hs => ⟨hs.1, hs.2.1, fun hr => h (hs.2.2 hr)⟩

/-- What happens does not change what is known. -/
theorem keeps_emit (refusals : Nat) (e : Event) : Keeps (q.Knows refusals) (Search.emit e) :=
  Keeps.update fun _ _ hs => hs

/-- A note changes neither what is remembered as impossible nor the number of refusals. -/
theorem record_kept (s : SearchState) (f : Failure) :
    (s.record f).failed = s.failed ∧ (s.record f).refusals = s.refusals := by
  rw [SearchState.record]
  split
  · exact ⟨rfl, rfl⟩
  · split <;> exact ⟨rfl, rfl⟩

theorem keeps_note (refusals : Nat) (f : Failure) : Keeps (q.Knows refusals) (Search.note f) := by
  refine Keeps.update fun H s hs => ?_
  obtain ⟨hfailed, hrefusals⟩ := record_kept s f
  simpa only [Knows, Sound, hfailed, hrefusals] using hs

/-- A recorded rejection tracks the families that yield nothing. -/
theorem tracks_fail {α : Type} (refusals : Nat) (f : Failure) :
    Tracks (q.Knows refusals) q.Sound (Search.fail f : Search α) (fun _ : Nat => none)
      fun _ => none :=
  Tracks.note (keeps_note refusals f) (Tracks.reject (weakens_knows q refusals))

/-- A search of parts agrees with the plain search inside of the given parts, and, as far as it
knows, with the free search. -/
def Faithful (q : Query) (parse : Parse) (active : List Part) : Prop :=
  ∀ refusals d start stop,
    Tracks (q.Knows refusals) q.Sound (parse d start stop)
      (fun fuel => q.plain fuel active d start stop) fun fuel => q.free fuel d start stop

theorem plain_span {fuel : Nat} {active : List Part} {d start stop : Nat} {s : Split}
    (h : q.plain fuel active d start stop = some s) : s.span = ⟨start, stop⟩ := by
  cases fuel with
  | zero => simp [plain] at h
  | succ fuel =>
      simp only [plain] at h
      split at h
      · simp at h
      · exact plainShape_span h

theorem free_span {fuel : Nat} {d start stop : Nat} {s : Split}
    (h : q.free fuel d start stop = some s) : s.span = ⟨start, stop⟩ := by
  cases fuel with
  | zero => simp [free] at h
  | succ fuel => exact plainShape_span h

/-! ### Sequences -/

section Sequence

variable {parse : Parse} {active : List Part} {stop : Nat} {follows : Array Filter}

/-- What a sequence of the items `all` knows: all items and cursors that it remembers as impossible
are so inside of the given parts, and, if nothing was refused, everywhere. -/
def SequenceKnows (q : Query) (active : List Part) (stop : Nat) (follows : Array Filter)
    (all : List DefId) (refusals : Nat) : Prop → SequenceState → Prop :=
  Beside (q.Knows refusals)
    (fun dead => ∀ kc ∈ dead, Never fun fuel =>
      q.plainSequence (q.free fuel) stop follows (all.drop kc.1) kc.1 kc.2)
    (fun dead => ∀ kc ∈ dead, Never fun fuel =>
      q.plainSequence (q.plain fuel active) stop follows (all.drop kc.1) kc.1 kc.2)

/-- Trying the ends of an item, when the rest of the sequence is tracked from each of them. -/
theorem sequenceCandidates_tracks (hparse : q.Faithful parse active) (d : DefId) {all : List DefId}
    (refusals : Nat) {item : DefId} {items : List DefId} {k cursor : Nat}
    (hitems : item :: items = all.drop k)
    (hrest : ∀ e, Tracks (q.SequenceKnows active stop follows all refusals) (fun s => q.Sound s.1)
      (q.sequenceFrom parse d stop follows items (k + 1) e)
      (fun fuel => q.plainSequence (q.plain fuel active) stop follows items (k + 1) e)
      fun fuel => q.plainSequence (q.free fuel) stop follows items (k + 1) e) :
    let ends := (q.ends item cursor stop).filter (follows.getD (k + 1) .everywhere).allows
    Tracks (q.SequenceKnows active stop follows all refusals) (fun s => q.Sound s.1)
      (if ends.isEmpty then Attempt.onFirst (Search.fail ⟨item, cursor, stop, .mismatch⟩)
        else
          Attempt.firstOf
            (fun e => do
              let part ← Attempt.onFirst (parse item cursor e)
              let parts ← q.sequenceFrom parse d stop follows items (k + 1) e
              return part :: parts)
            (fun e => Attempt.onFirst (Search.emit (.backtrack d e)))
            (do
              Attempt.update fun s => (s.1, s.2.insert (k, cursor))
              Attempt.reject)
            ends)
      (fun fuel => q.plainSequence (q.plain fuel active) stop follows (item :: items) k cursor)
      fun fuel => q.plainSequence (q.free fuel) stop follows (item :: items) k cursor := by
  intro ends
  have hK := weakens_knows q refusals
  have hends : (q.ends item cursor stop).filter (follows.getD (k + 1) .everywhere).allows = ends :=
    rfl
  simp only [plainSequence, hends]
  clear_value ends
  split
  · next hempty =>
      rw [List.isEmpty_iff.1 hempty]
      exact (tracks_fail refusals _).onFirst hK
  · refine Tracks.firstOf hK.beside (fun e _ => ?_) (fun e => (keeps_emit refusals _).onFirst) ?_
    · refine Tracks.bind hK.beside ((hparse refusals item cursor e).onFirst hK)
        (fun part _ => Tracks.map hK.beside (part :: ·) (hrest e)) ?_ ?_
      all_goals
        intro x y i _ _ hnone
        have := hnone i
        simpa using this
    · -- all ends are tried: the item and the cursor are remembered
      intro hnone H st hst
      refine ⟨⟨?_, ?_⟩, hnone⟩
      · refine hK _ _ _ (fun h => ⟨h.1, fun kc hkc => ?_⟩) hst.1
        rcases Std.HashSet.mem_insert.1 hkc with hkc | hkc
        · rw [← eq_of_beq hkc, ← hitems]
          intro fuel
          simp only [plainSequence, hends]
          exact h.1.2 fuel
        · exact h.2 kc hkc
      · intro kc hkc
        rcases Std.HashSet.mem_insert.1 hkc with hkc | hkc
        · rw [← eq_of_beq hkc, ← hitems]
          intro fuel
          simp only [plainSequence, hends]
          exact hnone fuel
        · exact hst.2 kc hkc

theorem sequenceFrom_tracks (hparse : q.Faithful parse active) (d : DefId) {all : List DefId}
    (refusals : Nat) {items : List DefId} {k cursor : Nat} (hitems : items = all.drop k) :
    Tracks (q.SequenceKnows active stop follows all refusals) (fun s => q.Sound s.1)
      (q.sequenceFrom parse d stop follows items k cursor)
      (fun fuel => q.plainSequence (q.plain fuel active) stop follows items k cursor)
      fun fuel => q.plainSequence (q.free fuel) stop follows items k cursor := by
  have hK := weakens_knows q refusals
  induction items generalizing k cursor with
  | nil =>
      rw [sequenceFrom]
      simp only [plainSequence]
      split
      · exact Tracks.pure hK.beside
      · exact (tracks_fail refusals _).onFirst hK
  | cons item items ih =>
      have hnext : items = all.drop (k + 1) := by
        rw [← List.drop_drop, ← hitems]; rfl
      rw [sequenceFrom]
      intro H st hst
      rw [bind_apply]
      by_cases hdead : st.2.contains (k, cursor) = true
      · -- the memory of the sequence answers
        have hmem : (k, cursor) ∈ st.2 := Std.HashSet.contains_iff_mem.1 hdead
        simp only [inspect, hdead, if_true]
        refine ⟨⟨hK _ _ _ (fun h => ⟨⟨h.1, ?_⟩, h.2⟩) hst.1, hst.2⟩, ?_⟩
        · have := h.2 _ hmem
          rwa [← hitems] at this
        · have := hst.2 _ hmem
          rwa [← hitems] at this
      · simp only [inspect, Bool.not_eq_true] at hdead ⊢
        rw [hdead, if_neg Bool.false_ne_true]
        refine sequenceCandidates_tracks hparse d refusals hitems (fun e => ?_) H st hst
        exact ih hnext

theorem sequence_tracks (hparse : q.Faithful parse active) (refusals : Nat) (d : DefId)
    (items : List DefId) (start stop : Nat) :
    Tracks (q.Knows refusals) q.Sound (q.sequence parse d items start stop)
      (fun fuel => (q.plainSequence (q.plain fuel active) stop
        (q.sequenceFollows d items.length start stop) items 0 start).map (.sequence ⟨start, stop⟩))
      fun fuel => (q.plainSequence (q.free fuel) stop
        (q.sequenceFollows d items.length start stop) items 0 start).map
          (.sequence ⟨start, stop⟩) := by
  have hempty : ∀ kc : Nat × Nat, kc ∉ (∅ : Std.HashSet (Nat × Nat)) :=
    fun _ => Std.HashSet.not_mem_empty
  refine (sequenceFrom_tracks hparse d refusals List.drop_zero.symm).inside
    (weakens_knows q refusals) (fun _ h => absurd h (hempty _)) (fun _ h => absurd h (hempty _)) _
    fun s => ?_
  rw [sequence]
  split <;> simp only [*] <;> rfl

/-! ### Choices -/

theorem choice_tracks (hparse : q.Faithful parse active) (refusals : Nat) (d : DefId)
    {start stop : Nat} {alternatives : List DefId} {index : Nat} :
    Tracks (q.Knows refusals) q.Sound (q.choice parse d start stop alternatives index)
      (fun fuel => q.plainChoice (q.plain fuel active) start stop alternatives index)
      fun fuel => q.plainChoice (q.free fuel) start stop alternatives index := by
  have hK := weakens_knows q refusals
  induction alternatives generalizing index with
  | nil => exact tracks_fail refusals _
  | cons alternative alternatives ih =>
      rw [choice]
      simp only [plainChoice]
      refine Tracks.orElse hK ?_ ih
      split
      · exact Tracks.reject hK
      · exact Tracks.map hK _ (hparse refusals alternative start stop)

end Sequence

/-! ### Loops -/

section Loop

variable {parse : Parse} {active : List Part} {p : LoopPlan}

/-- From every trail with the given point, the loop cannot be completed.  Fuel is counted for the
parts and for the elements apart. -/
def NeverFrom (q : Query) (p : LoopPlan) (parse : Nat → PlainParse) (point : LoopPoint) : Prop :=
  ∀ trail cursor, p.point trail cursor = point →
    Never fun fuel : Nat × Nat => q.plainExtend (parse fuel.1) p fuel.2 trail cursor

/-- What cannot be completed from one trail cannot be completed from its point. -/
theorem neverFrom_point {parse : Nat → PlainParse} {trail : List Split} {cursor : Nat}
    (h : Never fun fuel : Nat × Nat => q.plainExtend (parse fuel.1) p fuel.2 trail cursor) :
    q.NeverFrom p parse (p.point trail cursor) := by
  intro trail' cursor' hpoint fuel
  have hcursor : cursor' = cursor := congrArg LoopPoint.cursor hpoint
  subst hcursor
  refine Option.not_isSome_iff_eq_none.1 fun hsome => ?_
  have hsome' := plainExtend_mono (Wider.refl q) (LoopPlan.Wider.refl p) (.refl _) le_rfl hpoint hsome
  have hnone : q.plainExtend (parse fuel.1) p fuel.2 trail cursor' = none := h fuel
  simp [hnone] at hsome'

/-- Another element with the same range does not help. -/
theorem plainExtend_none_of_span (parse : Nat → PlainParse) {trail : List Split} {cursor e : Nat}
    {x y : Split} (hx : x.span = ⟨cursor, e⟩) (hy : y.span = ⟨cursor, e⟩)
    (h : Never fun fuel : Nat × Nat => q.plainExtend (parse fuel.1) p fuel.2 (x :: trail) e)
    (fuel : Nat × Nat) : q.plainExtend (parse fuel.1) p fuel.2 (y :: trail) e = none :=
  neverFrom_point h _ _
    (LoopPlan.point_cons_congr (rfl : p.point trail cursor = _) (hx.trans hy.symm)) fuel

/-- A loop that is neither complete nor full takes one more element. -/
theorem plainExtend_step {parse : PlainParse} {trail : List Split} {cursor : Nat}
    (hcomplete : p.isComplete trail cursor = false) (hfull : p.isFull trail = false) (n : Nat) :
    q.plainExtend parse p (n + 1) trail cursor =
      (q.loopEnds p trail cursor).findSome? fun e =>
        (parse (p.element trail) cursor e).bind fun part =>
          q.plainExtend parse p n (part :: trail) e := by
  simp only [plainExtend, hcomplete, hfull, Bool.false_eq_true, if_false]

/-- A loop that is full and not complete cannot be completed. -/
theorem plainExtend_full {parse : PlainParse} {trail : List Split} {cursor : Nat}
    (hcomplete : p.isComplete trail cursor = false) (hfull : p.isFull trail = true) (n : Nat) :
    q.plainExtend parse p n trail cursor = none := by
  cases n with
  | zero => rfl
  | succ n => simp [plainExtend, hcomplete, hfull]

/-- What a loop knows: all points that it remembers as impossible are so inside of the given parts,
and, if nothing was refused, everywhere. -/
def LoopKnows (q : Query) (active : List Part) (p : LoopPlan) (refusals : Nat) :
    Prop → LoopState → Prop :=
  Beside (q.Knows refusals) (fun dead => ∀ point ∈ dead, q.NeverFrom p q.free point)
    (fun dead => ∀ point ∈ dead, q.NeverFrom p (fun fuel => q.plain fuel active) point)

/-- The loop is tracked with fuel for the parts and for the elements. -/
def LoopTracks (q : Query) (active : List Part) (p : LoopPlan) (refusals : Nat)
    (a : Attempt LoopState (List Split)) (trail : List Split) (cursor : Nat) : Prop :=
  Tracks (q.LoopKnows active p refusals) (fun s => q.Sound s.1) a
    (fun fuel : Nat × Nat => q.plainExtend (q.plain fuel.1 active) p fuel.2 trail cursor)
    fun fuel => q.plainExtend (q.free fuel.1) p fuel.2 trail cursor

/-- Remembering a point from which everything was tried. -/
theorem giveUp_tracks {refusals : Nat} {trail : List Split} {cursor : Nat}
    {f g : Nat × Nat → Option (List Split)}
    (hf : Never f → Never fun fuel : Nat × Nat =>
      q.plainExtend (q.plain fuel.1 active) p fuel.2 trail cursor)
    (hg : Never g → Never fun fuel : Nat × Nat =>
      q.plainExtend (q.free fuel.1) p fuel.2 trail cursor)
    (hnone : Never f) (H : Prop) :
    Triple (q.LoopKnows active p refusals (H ∧ Never g))
      (Attempt.update (fun s => (s.1, s.2.insert (p.point trail cursor))) >>= fun _ =>
        (Attempt.reject : Attempt LoopState (List Split)))
      (Tracked (q.LoopKnows active p refusals) (fun s => q.Sound s.1) H f g) := by
  intro st hst
  refine ⟨⟨?_, fun point hpoint => ?_⟩, hnone⟩
  · refine weakens_knows q refusals _ _ _ (fun h => ⟨h.1, fun point hpoint => ?_⟩) hst.1
    rcases Std.HashSet.mem_insert.1 hpoint with hpoint | hpoint
    · rw [← eq_of_beq hpoint]
      exact neverFrom_point (hg h.1.2)
    · exact h.2 point hpoint
  · rcases Std.HashSet.mem_insert.1 hpoint with hpoint | hpoint
    · rw [← eq_of_beq hpoint]
      exact neverFrom_point (hf hnone)
    · exact hst.2 point hpoint

/-- The elements after a candidate for the next one, when the loop is tracked from there. -/
theorem loopElement_tracks (hparse : q.Faithful parse active) {refusals n : Nat}
    {trail : List Split} {cursor e : Nat}
    (hrest : ∀ part, q.LoopTracks active p refusals (q.extend parse p n (part :: trail) e)
      (part :: trail) e) :
    Tracks (q.LoopKnows active p refusals) (fun s => q.Sound s.1)
      (Attempt.onFirst (parse (p.element trail) cursor e) >>= fun part =>
        q.extend parse p n (part :: trail) e)
      (fun fuel : Nat × Nat => (q.plain fuel.1 active (p.element trail) cursor e).bind fun part =>
        q.plainExtend (q.plain fuel.1 active) p fuel.2 (part :: trail) e)
      fun fuel => (q.free fuel.1 (p.element trail) cursor e).bind fun part =>
        q.plainExtend (q.free fuel.1) p fuel.2 (part :: trail) e := by
  have hK := weakens_knows q refusals
  have hfst : ∀ bound : Nat, ∃ b : Nat × Nat, ∀ k, b ≤ k → bound ≤ k.1 :=
    fun bound => ⟨(bound, 0), fun _ h => (Prod.le_def.1 h).1⟩
  refine Tracks.bind hK.beside
    (((hparse refusals (p.element trail) cursor e).onFirst hK).comp hK.beside hfst)
    (fun part _ => hrest part) ?_ ?_
  · intro x y fuel hx hy hnone
    obtain ⟨_, hx⟩ := hx.exists
    exact plainExtend_none_of_span (fun fuel => q.plain fuel active) (plain_span hx) (plain_span hy)
      hnone fuel
  · intro x y fuel hx hy hnone
    obtain ⟨_, hx⟩ := hx.exists
    exact plainExtend_none_of_span q.free (plain_span hx) (free_span hy) hnone fuel

/-- One more element, when the loop is tracked after each candidate for it. -/
theorem loopCandidates_tracks (hparse : q.Faithful parse active) {refusals n : Nat}
    {trail : List Split} {cursor : Nat} (hcomplete : p.isComplete trail cursor = false)
    (hfull : p.isFull trail = false)
    (hrest : ∀ part e, q.LoopTracks active p refusals (q.extend parse p n (part :: trail) e)
      (part :: trail) e) :
    Tracks (q.LoopKnows active p refusals) (fun s => q.Sound s.1)
      (Attempt.firstOf
        (fun e => Attempt.onFirst (parse (p.element trail) cursor e) >>= fun part =>
          q.extend parse p n (part :: trail) e)
        (fun e => Attempt.onFirst (Search.emit (.backtrack p.definition e)))
        (Attempt.update (fun s => (s.1, s.2.insert (p.point trail cursor))) >>= fun _ =>
          Attempt.reject)
        (q.loopEnds p trail cursor))
      (fun fuel : Nat × Nat => (q.loopEnds p trail cursor).findSome? fun e =>
        (q.plain fuel.1 active (p.element trail) cursor e).bind fun part =>
          q.plainExtend (q.plain fuel.1 active) p fuel.2 (part :: trail) e)
      fun fuel => (q.loopEnds p trail cursor).findSome? fun e =>
        (q.free fuel.1 (p.element trail) cursor e).bind fun part =>
          q.plainExtend (q.free fuel.1) p fuel.2 (part :: trail) e := by
  have hK := weakens_knows q refusals
  have hstep : ∀ parse : Nat → PlainParse,
      (Never fun fuel : Nat × Nat => (q.loopEnds p trail cursor).findSome? fun e =>
        (parse fuel.1 (p.element trail) cursor e).bind fun part =>
          q.plainExtend (parse fuel.1) p fuel.2 (part :: trail) e) →
      Never fun fuel : Nat × Nat => q.plainExtend (parse fuel.1) p fuel.2 trail cursor := by
    rintro parse hnone ⟨fuel, _ | n⟩
    · rfl
    · exact (plainExtend_step hcomplete hfull n).trans (hnone (fuel, n))
  exact Tracks.firstOf hK.beside
    (fun e _ => loopElement_tracks hparse fun part => hrest part e)
    (fun e => (keeps_emit refusals _).onFirst)
    fun hnone H => giveUp_tracks (hstep fun fuel => q.plain fuel active) (hstep q.free) hnone H

/-- A loop that is neither complete nor full takes one more element; that costs one unit of fuel. -/
theorem LoopTracks.of_step {refusals : Nat} {a : Attempt LoopState (List Split)}
    {trail : List Split} {cursor : Nat} (hcomplete : p.isComplete trail cursor = false)
    (hfull : p.isFull trail = false)
    (h : Tracks (q.LoopKnows active p refusals) (fun s => q.Sound s.1) a
      (fun fuel : Nat × Nat => (q.loopEnds p trail cursor).findSome? fun e =>
        (q.plain fuel.1 active (p.element trail) cursor e).bind fun part =>
          q.plainExtend (q.plain fuel.1 active) p fuel.2 (part :: trail) e)
      fun fuel => (q.loopEnds p trail cursor).findSome? fun e =>
        (q.free fuel.1 (p.element trail) cursor e).bind fun part =>
          q.plainExtend (q.free fuel.1) p fuel.2 (part :: trail) e) :
    q.LoopTracks active p refusals a trail cursor :=
  h.spend (weakens_knows q refusals).beside (fun _ => rfl)
    (fun _ n => plainExtend_step hcomplete hfull n) (fun _ => rfl)
    fun _ n => plainExtend_step hcomplete hfull n

/-- A complete loop is found at once. -/
theorem loopComplete_tracks {refusals : Nat} {trail : List Split} {cursor : Nat}
    (hcomplete : p.isComplete trail cursor = true) :
    q.LoopTracks active p refusals (pure trail.reverse) trail cursor := by
  have hfound : ∀ (parse : PlainParse) n,
      q.plainExtend parse p (n + 1) trail cursor = some trail.reverse := by
    intro parse n
    simp only [plainExtend, hcomplete, if_true]
  exact (Tracks.pure (weakens_knows q refusals).beside).spend (weakens_knows q refusals).beside
    (fun _ => rfl) (fun _ n => hfound _ n) (fun _ => rfl) fun _ n => hfound _ n

/-- A note does not matter. -/
theorem LoopTracks.note {refusals : Nat} {a : Attempt LoopState (List Split)} {trail : List Split}
    {cursor : Nat} (h : q.LoopTracks active p refusals a trail cursor) (f : Failure) :
    q.LoopTracks active p refusals (Attempt.onFirst (Search.note f) >>= fun _ => a) trail cursor :=
  Tracks.note (keeps_note refusals f).onFirst h

/-- The continuation of a loop is tracked, whatever its own fuel. -/
theorem extend_tracks (hparse : q.Faithful parse active) {refusals n : Nat} {trail : List Split}
    {cursor : Nat} :
    q.LoopTracks active p refusals (q.extend parse p n trail cursor) trail cursor := by
  have hK := weakens_knows q refusals
  induction n generalizing trail cursor with
  | zero => exact fun H s hs => hs.1.1
  | succ n ih =>
      rw [extend]
      split
      · next hcomplete => exact loopComplete_tracks hcomplete
      · next hcomplete =>
        rw [Bool.not_eq_true] at hcomplete
        intro H st hst
        rw [bind_apply]
        by_cases hdead : st.2.contains (p.point trail cursor) = true
        · -- the memory of the loop answers
          have hmem : p.point trail cursor ∈ st.2 := Std.HashSet.contains_iff_mem.1 hdead
          simp only [inspect, hdead, if_true]
          exact ⟨⟨hK _ _ _ (fun h => ⟨⟨h.1, h.2 _ hmem _ _ rfl⟩, h.2⟩) hst.1, hst.2⟩,
            hst.2 _ hmem _ _ rfl⟩
        · simp only [inspect, Bool.not_eq_true] at hdead ⊢
          rw [hdead, if_neg Bool.false_ne_true]
          by_cases hfull : p.isFull trail = true
          · rw [if_pos hfull]
            have hgive : q.LoopTracks active p refusals _ trail cursor := fun H =>
              (giveUp_tracks id id (fun fuel => plainExtend_full hcomplete hfull fuel.2) H).consequence
                (fun _ hs => hK.beside _ _ _
                  (fun h => ⟨h, fun fuel => plainExtend_full hcomplete hfull fuel.2⟩) hs)
                fun _ _ h => h
            split
            · exact hgive.note _ H st hst
            · exact hgive H st hst
          · rw [if_neg hfull]
            rw [Bool.not_eq_true] at hfull
            have hnext := LoopTracks.of_step hcomplete hfull
              (loopCandidates_tracks hparse (n := n) hcomplete hfull fun part e => ih)
            split
            · exact hnext.note _ H st hst
            · exact hnext H st hst

theorem loop_tracks (hparse : q.Faithful parse active) (refusals : Nat) (p : LoopPlan) :
    Tracks (q.Knows refusals) q.Sound (q.loop parse p)
      (fun fuel => q.plainLoop (q.plain fuel active) p fuel)
      fun fuel => q.plainLoop (q.free fuel) p fuel := by
  have hK := weakens_knows q refusals
  have hboth : ∀ bound : Nat × Nat, ∃ b : Nat, ∀ k, b ≤ k → bound ≤ (k, k) :=
    fun bound => ⟨max bound.1 bound.2, fun k hk => Prod.le_def.2 (Nat.max_le.1 hk)⟩
  have hextend : q.LoopTracks active p refusals (q.extend parse p p.fuel [] p.start) [] p.start :=
    extend_tracks hparse
  have hempty : ∀ point : LoopPoint, point ∉ (∅ : Std.HashSet LoopPoint) :=
    fun _ => Std.HashSet.not_mem_empty
  refine (hextend.comp hK.beside hboth).inside hK (fun _ h => absurd h (hempty _))
    (fun _ h => absurd h (hempty _)) p.toSplit fun s => ?_
  rw [loop]
  split <;> simp only [*] <;> rfl

end Loop

/-! ### Parts -/

theorem leaf_tracks (refusals : Nat) (d : DefId) (start stop : Nat) (fits : Bool) :
    Tracks (q.Knows refusals) q.Sound (leaf d start stop fits)
      (fun _ : Nat => plainLeaf start stop fits) fun _ => plainLeaf start stop fits := by
  cases fits with
  | true => exact Tracks.pure (weakens_knows q refusals)
  | false => exact tracks_fail refusals _

/-- The structural rule of a definition is tracked when its parts are. -/
theorem parseShape_tracks {parse : Parse} {active : List Part} (hparse : q.Faithful parse active)
    (refusals : Nat) (d : DefId) (start stop : Nat) :
    Tracks (q.Knows refusals) q.Sound (q.parseShape parse d start stop)
      (fun fuel => q.plainShape (q.plain fuel active) fuel d start stop)
      fun fuel => q.plainShape (q.free fuel) fuel d start stop := by
  have hK := weakens_knows q refusals
  simp only [parseShape, plainShape]
  cases q.grammar.shape d with
  | literal text => exact leaf_tracks refusals d start stop _
  | pattern source => exact leaf_tracks refusals d start stop _
  | empty => exact leaf_tracks refusals d start stop _
  | sequence items => exact sequence_tracks hparse refusals d items start stop
  | choice alternatives => exact choice_tracks hparse refusals d
  | optional item quantifier =>
      dsimp only
      split
      · exact Tracks.pure hK
      · exact Tracks.map hK _ (hparse refusals item start stop)
  | loop item repetition => exact loop_tracks hparse refusals _
  | separated item separator default repetition => exact loop_tracks hparse refusals _
  | «alias» target name => exact Tracks.reject hK
  | forward target => exact Tracks.reject hK
  | withDefault content target => exact Tracks.reject hK

/-- It does not matter under which name the free search tries a definition. -/
theorem free_never_congr {d d' : DefId} (hd : q.grammar.resolve d' = q.grammar.resolve d)
    {start stop : Nat} (h : Never fun fuel => q.free fuel d start stop) :
    Never fun fuel => q.free fuel d' start stop := by
  intro fuel
  refine Option.eq_none_iff_forall_ne_some.2 fun s hs => ?_
  obtain ⟨s', hs', _⟩ := free_mono le_rfl hd.symm hs
  exact absurd hs' (by rw [show q.free fuel d start stop = none from h fuel]; simp)

/-- What is known after a part was entered: nothing was refused before it that was not known. -/
theorem Knows.extend {refusals : Nat} {H G : Prop} {s s' : SearchState} (hs : q.Knows refusals H s)
    (hs' : q.Knows s.refusals G s') : q.Knows refusals (H ∧ G) s' := by
  obtain ⟨_, hle, hH⟩ := hs
  obtain ⟨hsound, hle', hG⟩ := hs'
  exact ⟨hsound, hle.trans hle', fun h => ⟨hH (by omega), hG (by omega)⟩⟩

/-- **The search with its memory agrees with the plain search**, inside of all parts and with
whatever fuel: what it finds the plain search finds, what it rejects the plain search rejects, and
every part that it remembers as impossible is rejected even without anything around it. -/
theorem parse_faithful
    (hresolve : ∀ d, q.grammar.resolve (q.grammar.resolve d) = q.grammar.resolve d)
    (fuel : Nat) (active : List Part) : q.Faithful (q.parse fuel active) active := by
  have hK := weakens_knows q
  induction fuel generalizing active with
  | zero => exact fun refusals d start stop H s hs => hs.1
  | succ fuel ih =>
      intro refusals d start stop H s hs
      simp only [parse]
      split
      · -- the memory answers
        next hfailed =>
        have hfree := free_never_congr (hresolve d).symm
          (hs.1 _ (Std.HashSet.contains_iff_mem.1 hfailed))
        exact ⟨hK refusals _ _ _ (fun h => ⟨h, hfree⟩) hs,
          fun n => plain_eq_none_of_free rfl hfree n active⟩
      split
      · -- the part is refused
        next hactive =>
        refine ⟨⟨hs.1, hs.2.1.trans (Nat.le_succ _), fun h => ?_⟩, fun n => ?_⟩
        · have : s.refusals + 1 = refusals := h
          have := hs.2.1
          omega
        · cases n with
          | zero => rfl
          | succ n => simp only [plain, hactive, if_true]
      split
      · exact hs.1
      next hactive _ =>
      let part : Part := ⟨q.grammar.resolve d, start, stop⟩
      have hentered : q.Knows s.refusals True (s.happen (.enter d start stop)) :=
        ⟨hs.1, Nat.le_refl _, fun _ => trivial⟩
      have hpost := parseShape_tracks (ih (part :: active)) s.refusals d start stop True _ hentered
      -- entering the part costs one unit of fuel
      have hplain : ∀ n, q.plain (n + 1) active d start stop =
          q.plainShape (q.plain n (part :: active)) n d start stop := by
        intro n
        rw [plain]
        exact if_neg hactive
      have hplainNever : Never (fun n =>
          q.plainShape (q.plain n (part :: active)) n d start stop) →
          Never fun n => q.plain n active d start stop := by
        rintro h (_ | n)
        · rfl
        · exact (hplain n).trans (h n)
      have hfreeNever : Never (fun n => q.plainShape (q.free n) n d start stop) →
          Never fun n => q.free n d start stop := by
        rintro h (_ | n)
        · rfl
        · exact h n
      split
      · next x s' hr =>
        rw [hr] at hpost
        obtain ⟨hs', hx⟩ := hpost
        exact ⟨hK _ _ _ _ (fun h => ⟨h.1, h.2.2.succ fun _ => rfl⟩) (hs.extend hs'),
          hx.succ hplain⟩
      · next e s' hr =>
        rw [hr] at hpost
        split
        · next hkept =>
          obtain ⟨rfl, hkept⟩ := hkept
          obtain ⟨hs', hnone⟩ := hpost
          have hfree := hfreeNever (hs'.2.2 hkept).2
          have hknown := hs.extend hs'
          refine ⟨⟨fun other hother => ?_, hknown.2.1, fun h => ⟨(hknown.2.2 h).1, hfree⟩⟩,
            hplainNever hnone⟩
          rcases Std.HashSet.mem_insert.1 hother with hother | hother
          · rw [← eq_of_beq hother]
            exact free_never_congr (hresolve d) hfree
          · exact hs'.1 other hother
        · next hkept =>
          cases e with
          | rejected =>
              obtain ⟨hs', hnone⟩ := hpost
              have hkept : s'.refusals ≠ s.refusals := fun h => hkept ⟨rfl, h⟩
              have hle : refusals ≤ s.refusals := hs.2.1
              have hle' : s.refusals ≤ s'.refusals := hs'.2.1
              refine ⟨⟨hs'.1, hle.trans hle', fun h => absurd h ?_⟩, hplainNever hnone⟩
              exact (by omega : s'.refusals ≠ refusals)
          | limitExceeded => exact hpost
          | outOfFuel => exact hpost

end Query

end Tessera
