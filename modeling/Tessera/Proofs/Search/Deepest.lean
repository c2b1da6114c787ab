/-
**The failure that is reported is the deepest one.**

The account of a search lists all failures that it met.  Each of them lies over a range of the text and
has the reason that it names: items are too few at the end of a range over which fewer were found than
are needed, they are too many where the largest number was found and text is left.

A candidate that is rejected leaves somebody to blame: a failure that was met, or a part that was
refused because the search was inside of it already.  What is remembered as impossible was rejected
before, so giving it up at once does not make a difference.  Hence a text that is rejected without any
failure was rejected because of a refusal.

Main definitions:

* `Tessera.Met.After`, `Tessera.Met.Sound` — what a failure says about the text;
* `Tessera.Attempt.Blames` — a rejection leaves somebody to blame;
* `Tessera.Rejection.Deepest` — what a rejection says about the failures that were met.

Main results:

* `Tessera.Query.tell_blames` — **every rejection of a part leaves somebody to blame**;
* `Tessera.resolve_deepest` — **what is reported is the last of the failures that begin furthest**.
-/

import Tessera.Proofs.Search.Chronicle
import Tessera.Proofs.Search.LoopOrder
import Tessera.Proofs.Search.Marking
import Tessera.Proofs.Search.Trails

set_option autoImplicit false

namespace Tessera

/-! ### What a failure says -/

/-- The failure was met in the loop after the elements that were found. -/
structure Met.After (q : Query) (m : Met) (p : LoopPlan) : Prop where
  definition : p.definition = m.failure.definition
  repeats : q.grammar.Repeats p.definition p.item p.separator p.repetition
  stop : p.stop = m.failure.stop
  tiles : Tiles p.start m.failure.start m.found
  fit : q.ElementsFit p [] m.found

/-- A failure is what its reason says. -/
def Met.Explained (q : Query) (m : Met) : Prop :=
  match m.failure.reason with
  | .mismatch => True
  | .noAlternative => ∃ alternatives, q.grammar.shape m.failure.definition = .choice alternatives
  | .trailingContent => m.failure.start < m.failure.stop ∧
      ∃ items, q.grammar.shape m.failure.definition = .sequence items
  | .tooFewItems => m.failure.start = m.failure.stop ∧
      ∃ p, m.After q p ∧ p.count m.found < p.repetition.min
  | .tooManyItems => m.failure.start < m.failure.stop ∧
      ∃ p max, m.After q p ∧ p.repetition.max = some max ∧ max ≤ p.count m.found

/-- A failure lies over a range of the text and is what its reason says. -/
structure Met.Sound (q : Query) (m : Met) : Prop where
  range : IsRange q.text m.failure.start m.failure.stop
  explained : m.Explained q

/-! ### Blame -/

namespace Attempt

variable {σ υ α β : Type} {I B : σ → Prop} {P : α → Prop} {Q : β → Prop} {s : σ}

/-- From the state `s` an attempt came to the outcome `r`: the invariant `I` is kept and blame `B` that
was there stays.  A value that was found has the property `P`, and a rejection leaves blame. -/
structure Blames (I B : σ → Prop) (P : α → Prop) (s : σ) (r : Except Abort α × σ) : Prop where
  keeps : I r.2
  stays : B s → B r.2
  found : ∀ x, r.1 = .ok x → P x
  blamed : r.1 = .error .rejected → B r.2

namespace Blames

theorem ok {x : α} {s' : σ} (hI : I s') (hB : B s → B s') (hx : P x) :
    Blames I B P s (.ok x, s') :=
  ⟨hI, hB, fun _ h => Except.ok.inj h ▸ hx, nofun⟩

theorem error {e : Abort} {s' : σ} (hI : I s') (hB : B s → B s') (he : e = .rejected → B s') :
    Blames I B P s (.error e, s') :=
  ⟨hI, hB, nofun, fun h => he (Except.error.inj h)⟩

theorem pure {x : α} (hs : I s) (hx : P x) :
    Blames I B P s ((Pure.pure x : Attempt σ α) s) := ok hs id hx

/-- A rejection is in order where there is blame already. -/
theorem reject (hs : I s) (hB : B s) : Blames I B P s (Attempt.reject s) :=
  error hs id fun _ => hB

theorem stop {e : Abort} (he : e ≠ .rejected) (hs : I s) :
    Blames I B P s (Attempt.stop e s) := error hs id fun h => absurd h he

/-- What comes after blame may have begun before. -/
theorem since {s' : σ} {r : Except Abort α × σ} (hB : B s → B s') (h : Blames I B P s' r) :
    Blames I B P s r := ⟨h.keeps, fun hs => h.stays (hB hs), h.found, h.blamed⟩

theorem bind {a : Attempt σ α} {f : α → Attempt σ β} (ha : Blames I B P s (a s))
    (hf : ∀ x s', I s' → P x → Blames I B Q s' (f x s')) : Blames I B Q s ((a >>= f) s) := by
  obtain ⟨hkeeps, hstays, hfound, hblamed⟩ := ha
  rw [bind_apply]
  rcases hr : a s with ⟨e | x, s'⟩
  · rw [hr] at hkeeps hstays hblamed
    exact error hkeeps hstays fun he => hblamed (congrArg Except.error he)
  · rw [hr] at hkeeps hstays hfound
    exact (hf x s' hkeeps (hfound x rfl)).since hstays

/-- A look at the state. -/
theorem inspect_bind {g : σ → α} {f : α → Attempt σ β} (h : Blames I B Q s (f (g s) s)) :
    Blames I B Q s ((Attempt.inspect g >>= f) s) := h

/-- A change of the state that leaves blame. -/
theorem update_bind {u : σ → σ} {f : Unit → Attempt σ β} (hB : B (u s))
    (h : Blames I B Q (u s) (f () (u s))) : Blames I B Q s ((Attempt.update u >>= f) s) :=
  h.since fun _ => hB

/-- The second attempt begins with blame. -/
theorem orElse {a b : Attempt σ α} (ha : Blames I B P s (a s))
    (hb : ∀ s', I s' → B s' → Blames I B P s' (b s')) :
    Blames I B P s (Attempt.orElse a b s) := by
  rw [Attempt.orElse]
  rcases hr : a s with ⟨e | x, s'⟩
  · rw [hr] at ha
    cases e with
    | rejected =>
        have hB := ha.blamed rfl
        exact (hb s' ha.keeps hB).since fun _ => hB
    | limitExceeded => exact ha
    | outOfFuel => exact ha
  · rwa [hr] at ha

/-- Candidates that are tried in turn: when all of them are rejected there is blame. -/
theorem firstOf {attempt : α → Attempt σ β} {otherwise : Attempt σ β} {xs : List α}
    (hs : I s) (hne : xs ≠ [] ∨ B s)
    (h : ∀ x ∈ xs, ∀ s, I s → Blames I B Q s (attempt x s))
    (hlast : ∀ s, I s → B s → Blames I B Q s (otherwise s)) :
    Blames I B Q s (Attempt.firstOf attempt (fun _ => Pure.pure ()) otherwise xs s) := by
  induction xs generalizing s with
  | nil => exact hlast s hs (hne.resolve_left fun h => h rfl)
  | cons x xs ih =>
      refine (h x List.mem_cons_self s hs).orElse fun s' hs' hB => ?_
      exact ih hs' (.inr hB) fun y hy => h y (List.mem_cons_of_mem x hy)

/-! ### Remembered points -/

/-- The invariant with a memory of points: for what is remembered as impossible there is blame. -/
def Remembering [BEq υ] [Hashable υ] (I B : σ → Prop) (t : σ × Std.HashSet υ) : Prop :=
  I t.1 ∧ ∀ x, t.2.contains x = true → B t.1

section Memory

variable [BEq υ] [Hashable υ] {t : σ × Std.HashSet υ}

/-- An attempt on the first part of the state. -/
theorem onFirst {a : Attempt σ α} (ht : Remembering I B t) (ha : Blames I B P t.1 (a t.1)) :
    Blames (Remembering (υ := υ) I B) (fun t => B t.1) P t (Attempt.onFirst a t) :=
  ⟨⟨ha.keeps, fun x hx => ha.stays (ht.2 x hx)⟩, ha.stays, ha.found, ha.blamed⟩

/-- A point that is given up. -/
theorem giveUp (point : υ) (ht : Remembering I B t) (hB : B t.1) :
    Blames (Remembering (υ := υ) I B) (fun t => B t.1) P t
      ((do
        Attempt.update fun t => (t.1, t.2.insert point)
        Attempt.reject : Attempt (σ × Std.HashSet υ) α) t) :=
  update_bind hB (reject ⟨ht.1, fun _ _ => hB⟩ hB)

/-- An attempt with a memory of its own. -/
theorem within {a : Attempt (σ × Std.HashSet υ) α} {w : α → β} (hs : I s)
    (ha : ∀ t, Remembering (υ := υ) I B t →
      Blames (Remembering I B) (fun t => B t.1) P t (a t)) (hw : ∀ x, P x → Q (w x)) :
    Blames I B Q s (Attempt.within a (∅ : Std.HashSet υ) w s) := by
  have ha := ha (s, ∅) ⟨hs, fun x hx => by rw [Std.HashSet.contains_empty] at hx; cases hx⟩
  rw [Attempt.within]
  rcases hr : a (s, ∅) with ⟨e | x, t⟩
  · rw [hr] at ha
    exact error ha.keeps.1 ha.stays fun he => ha.blamed (congrArg Except.error he)
  · rw [hr] at ha
    exact ok ha.keeps.1 ha.stays (hw x (ha.found x rfl))

end Memory

end Blames

end Attempt

/-! ### The elements of a loop -/

namespace LoopPlan

variable {p : LoopPlan} {trail : List Split} {cursor : Nat} {part : Split}

/-- There are no more items than admitted, and fewer when a separator stands last. -/
def HasRoom (p : LoopPlan) (trail : List Split) : Prop :=
  ∀ max, p.repetition.max = some max → p.count trail ≤ max ∧
    (p.endsWithSeparator trail = true → p.count trail < max)

theorem hasRoom_nil (p : LoopPlan) : p.HasRoom [] := by
  intro max _
  simp [count, endsWithSeparator]

/-- A loop that is not full may have another element. -/
theorem HasRoom.cons (h : p.HasRoom trail) (hfull : p.isFull trail = false) :
    p.HasRoom (part :: trail) := by
  intro max hmax
  obtain ⟨hle, hlt⟩ := h max hmax
  rw [isFull, hmax, Option.any_some, Bool.and_eq_false_iff, Bool.not_eq_false',
    decide_eq_false_iff_not] at hfull
  rw [endsWithSeparator_iff] at hfull hlt ⊢
  simp only [count, List.length_cons] at hfull hle hlt ⊢
  cases hsep : p.separator.isSome with
  | true =>
      simp only [hsep, if_true, true_and] at hfull hle hlt ⊢
      have hbelow : (trail.length + 1) / 2 < max := hfull.elim hlt Nat.lt_of_not_le
      refine ⟨?_, fun hends => ?_⟩ <;> omega
  | false =>
      simp only [hsep, Bool.false_eq_true, if_false, false_and, false_or] at hfull ⊢
      exact ⟨by omega, False.elim⟩

/-- At the end of its range a full loop is complete. -/
theorem HasRoom.isComplete (h : p.HasRoom trail) (hfull : p.isFull trail = true)
    (hvalid : p.repetition.isValid = true) : p.isComplete trail p.stop = true := by
  rw [isFull, Bool.and_eq_true, Option.any_eq_true] at hfull
  obtain ⟨hends, max, hmax, hge⟩ := hfull
  have hle := (h max hmax).1
  have hge : max ≤ p.count trail := of_decide_eq_true hge
  have hadmits : p.repetition.admits (p.count trail) = true := by
    refine Repetition.admits_iff.2 ⟨?_, fun max' hmax' => ?_⟩
    · exact (Repetition.bounds_of_isValid hvalid max hmax).2.trans hge
    · rwa [← Option.some.inj (hmax.symm.trans hmax')]
  simp [LoopPlan.isComplete, hends, hadmits]

theorem count_reverse (p : LoopPlan) (trail : List Split) :
    p.count trail.reverse = p.count trail := by
  simp only [count, List.length_reverse]

end LoopPlan

/-- A part that begins where others end lies side by side with them. -/
theorem Tiles.concat {start stop : Nat} {ss : List Split} {s : Split} (h : Tiles start stop ss)
    (hs : s.span.start = stop) : Tiles start s.span.stop (ss ++ [s]) := by
  induction ss generalizing start with
  | nil => exact ⟨hs.trans h.symm, rfl⟩
  | cons t ts ih => exact ⟨h.1, ih h.2⟩

namespace Query

open Attempt

variable {q : Query} {tell : Telling}

/-- An element that fits after others. -/
theorem ElementsFit.concat {p : LoopPlan} {trail ss : List Split} {s : Split}
    (h : q.ElementsFit p trail ss)
    (hs : s.Fits q.grammar q.text (p.element (ss.reverse ++ trail))) :
    q.ElementsFit p trail (ss ++ [s]) := by
  induction ss generalizing trail with
  | nil => exact ⟨hs, trivial⟩
  | cons t ts ih =>
      refine ⟨h.1, ih h.2 ?_⟩
      rwa [List.reverse_cons, List.append_assoc, List.singleton_append] at hs

/-- What a loop has found when it stands at the cursor; the latest element stands first. -/
structure Progress (q : Query) (p : LoopPlan) (trail : List Split) (cursor : Nat) : Prop where
  range : IsRange q.text cursor p.stop
  tiles : Tiles p.start cursor trail.reverse
  fit : q.ElementsFit p [] trail.reverse
  room : p.HasRoom trail

/-- The elements make up the whole loop. -/
structure MakesUp (q : Query) (p : LoopPlan) (elements : List Split) : Prop where
  tiles : Tiles p.start p.stop elements
  fit : q.ElementsFit p [] elements
  complete : p.isComplete elements.reverse p.stop = true

theorem Progress.start {p : LoopPlan} (h : IsRange q.text p.start p.stop) :
    q.Progress p [] p.start := ⟨h, rfl, trivial, p.hasRoom_nil⟩

theorem Progress.next {p : LoopPlan} {trail : List Split} {cursor e : Nat} {part : Split}
    (h : q.Progress p trail cursor) (hrest : IsRange q.text e p.stop)
    (hfull : p.isFull trail = false) (hspan : part.span = ⟨cursor, e⟩)
    (hfits : part.Fits q.grammar q.text (p.element trail)) : q.Progress p (part :: trail) e where
  range := hrest
  tiles := by
    have htiles := h.tiles.concat (s := part) (by rw [hspan])
    rwa [hspan, ← List.reverse_cons] at htiles
  fit := by
    have hfit := h.fit.concat (s := part) (by rwa [List.reverse_reverse, List.append_nil])
    rwa [← List.reverse_cons] at hfit
  room := h.room.cons hfull

section Failures

variable {p : LoopPlan} {trail : List Split} {cursor : Nat} (h : q.Progress p trail cursor)
  (hrepeats : q.grammar.Repeats p.definition p.item p.separator p.repetition)
include h hrepeats

theorem Progress.after (reason : Reason) :
    Met.After q ⟨⟨p.definition, cursor, p.stop, reason⟩, trail.reverse⟩ p :=
  ⟨rfl, hrepeats, rfl, h.tiles, h.fit⟩

/-- Text is left after the largest number of items. -/
theorem Progress.tooManyItems_sound (hfull : p.isFull trail = true) (hlt : cursor < p.stop) :
    Met.Sound q ⟨⟨p.definition, cursor, p.stop, .tooManyItems⟩, trail.reverse⟩ := by
  rw [LoopPlan.isFull, Bool.and_eq_true, Option.any_eq_true] at hfull
  obtain ⟨-, max, hmax, hge⟩ := hfull
  refine ⟨h.range, hlt, p, max, h.after hrepeats _, hmax, ?_⟩
  rw [LoopPlan.count_reverse]
  exact of_decide_eq_true hge

/-- Without an end to try, items are missing at the end of the range or the element does not match.
-/
theorem Progress.loopFailure_sound :
    Met.Sound q ⟨loopFailure p trail cursor, trail.reverse⟩ := by
  rw [loopFailure]
  split
  · next hmissing =>
    simp only [Bool.and_eq_true, decide_eq_true_eq, LoopPlan.belowMin] at hmissing
    refine ⟨h.range, hmissing.1.1, p, h.after hrepeats _, ?_⟩
    rw [LoopPlan.count_reverse]
    exact hmissing.2
  · exact ⟨h.range, trivial⟩

end Failures

end Query

/-- The bounds of a loop of a valid grammar leave room. -/
theorem Grammar.Valid.repeats_isValid {g : Grammar} (hg : g.Valid) {d item : DefId}
    {separator : Option DefId} {r : Repetition} (h : g.Repeats d item separator r) :
    r.isValid = true := by
  cases separator with
  | none => exact hg.repetition _ r (congrArg Rule.repetition? h)
  | some separator =>
      obtain ⟨default, h⟩ := h
      exact hg.repetition _ r (congrArg Rule.repetition? h)

/-! ### Blame in a search -/

/-- Somebody is to blame: a failure was met or a part was refused. -/
def Chronicle.Blamed (c : Chronicle) : Prop := c.met ≠ [] ∨ 0 < c.refusals

/-- What an account guarantees: its failures are what they say, and for every part that is remembered
as impossible there is blame. -/
structure Chronicle.Sound (q : Query) (c : Chronicle) : Prop where
  met : ∀ m ∈ c.met, m.Sound q
  failed : ∀ part, c.failed.contains part = true → c.Blamed

/-- The account with one more failure. -/
def Chronicle.add (c : Chronicle) (m : Met) : Chronicle := { c with met := m :: c.met }

namespace Chronicle

variable {q : Query} {c : Chronicle} {m : Met}

theorem blamed_add : (c.add m).Blamed := .inl (List.cons_ne_nil _ _)

theorem Sound.add (h : c.Sound q) (hm : m.Sound q) : (c.add m).Sound q :=
  ⟨List.forall_mem_cons.2 ⟨hm, h.met⟩, fun _ _ => blamed_add⟩

end Chronicle

namespace Query

variable {q : Query} {tell : Telling}

open Attempt

/-- What a search for parts guarantees over a range: what it finds fits, and when it is rejected there
is blame. -/
def BlamesParts (q : Query) (tell : Telling) : Prop :=
  ∀ d start stop c, IsRange q.text start stop → c.Sound q →
    Blames (Chronicle.Sound q) Chronicle.Blamed
      (fun s => s.span = ⟨start, stop⟩ ∧ s.Fits q.grammar q.text d) c (tell d start stop c)

/-- A failure is blamed. -/
theorem fail_blames {α : Type} {P : α → Prop} {f : Failure} {c : Chronicle} (hc : c.Sound q)
    (hf : Met.Sound q ⟨f, []⟩) :
    Blames (Chronicle.Sound q) Chronicle.Blamed P c (Account.fail f c) :=
  .update_bind Chronicle.blamed_add (.reject (hc.add hf) Chronicle.blamed_add)

section Shapes

variable (hg : q.grammar.Valid) (htell : q.BlamesParts tell)
include hg htell

theorem tellSequenceFrom_blames {d : DefId} {all : List DefId}
    (hshape : q.grammar.shape d = .sequence all) {stop : Nat} {items : List DefId} {k cursor : Nat}
    (hrange : IsRange q.text cursor stop) {t : Chronicle × Std.HashSet (Nat × Nat)}
    (ht : Blames.Remembering (Chronicle.Sound q) Chronicle.Blamed t) :
    Blames (Blames.Remembering (Chronicle.Sound q) Chronicle.Blamed) (fun t => t.1.Blamed)
      (fun parts => Tiles cursor stop parts ∧ Split.FitAll q.grammar q.text parts items)
      t (q.tellSequenceFrom tell d stop items k cursor t) := by
  induction items generalizing k cursor t with
  | nil =>
      rw [tellSequenceFrom]
      split
      · next hend => exact .pure ht ⟨hend, rfl⟩
      · next hne =>
        exact .onFirst ht (fail_blames ht.1
          ⟨hrange, Nat.lt_of_le_of_ne hrange.le hne, all, hshape⟩)
  | cons item items ih =>
      rw [tellSequenceFrom]
      refine .inspect_bind ?_
      split
      · next hknown => exact .reject ht (ht.2 _ hknown)
      dsimp only
      split
      · exact .onFirst ht (fail_blames ht.1 ⟨hrange, trivial⟩)
      · next hends =>
        have hne : q.ends item cursor stop ≠ [] := fun h => hends (List.isEmpty_iff.2 h)
        refine .firstOf ht (.inl hne) (fun e he t ht => ?_) fun t ht hB => .giveUp _ ht hB
        obtain ⟨hleft, hright⟩ := isRange_of_mem_allEnds hg hrange (mem_allEnds_of_ends he)
        refine (Blames.onFirst ht (htell item cursor e t.1 hleft ht.1)).bind ?_
        rintro part t ht ⟨hspan, hfits⟩
        refine (ih hright ht).bind fun parts t ht hparts => .pure ht ?_
        obtain ⟨htiles, hall⟩ := hparts
        exact ⟨⟨by rw [hspan], by rwa [hspan]⟩, item, items, rfl, hfits, hall⟩

theorem tellSequence_blames {d : DefId} {items : List DefId}
    (hshape : q.grammar.shape d = .sequence items) {start stop : Nat}
    (hrange : IsRange q.text start stop) {c : Chronicle} (hc : c.Sound q) :
    Blames (Chronicle.Sound q) Chronicle.Blamed
      (fun s => s.span = ⟨start, stop⟩ ∧ s.Fits q.grammar q.text d) c
      (q.tellSequence tell d items start stop c) := by
  refine .within hc (fun t ht => tellSequenceFrom_blames hg htell hshape hrange ht) ?_
  rintro parts ⟨htiles, hall⟩
  refine ⟨rfl, ?_⟩
  rw [Split.Fits]
  exact ⟨hrange, htiles, items, hshape, hall⟩

omit hg in
theorem tellChoice_blames {d : DefId} {all : List DefId}
    (hshape : q.grammar.shape d = .choice all) {start stop : Nat}
    (hrange : IsRange q.text start stop) {alternatives : List DefId} {index : Nat}
    (hrest : all.drop index = alternatives) {c : Chronicle} (hc : c.Sound q) :
    Blames (Chronicle.Sound q) Chronicle.Blamed
      (fun s => s.span = ⟨start, stop⟩ ∧ s.Fits q.grammar q.text d) c
      (tellChoice tell d start stop alternatives index c) := by
  induction alternatives generalizing index c with
  | nil => exact fail_blames hc ⟨hrange, all, hshape⟩
  | cons a as ih =>
      have hat : all[index]? = some a := by
        have hget := congrArg (·[0]?) hrest
        simpa using hget
      have hnext : all.drop (index + 1) = as := by rw [← List.drop_drop, hrest]; rfl
      rw [tellChoice]
      refine .orElse ?_ fun c hc _ => ih hnext hc
      refine (htell a start stop c hrange hc).bind fun inner c hc hinner => ?_
      obtain ⟨hspan, hfits⟩ := hinner
      refine .pure hc ⟨rfl, ?_⟩
      rw [Split.Fits]
      exact ⟨hrange, hspan, all, a, hshape, hat, hfits⟩

omit hg htell in
/-- A failure in a loop is blamed when the loop gives up. -/
theorem note_giveUp_blames {α υ : Type} [BEq υ] [Hashable υ] {P : α → Prop} {m : Met}
    {t : Chronicle × Std.HashSet υ} (point : υ)
    (ht : Blames.Remembering (Chronicle.Sound q) Chronicle.Blamed t) (hm : m.Sound q) :
    Blames (Blames.Remembering (Chronicle.Sound q) Chronicle.Blamed) (fun t => t.1.Blamed) P t
      ((do
        Attempt.onFirst (Account.note m.failure m.found)
        Attempt.update fun s => (s.1, s.2.insert point)
        Attempt.reject : Attempt (Chronicle × Std.HashSet υ) α) t) := by
  have hB : (t.1.add m).Blamed := Chronicle.blamed_add
  exact .update_bind (u := fun t : Chronicle × Std.HashSet υ => (t.1.add m, t.2)) hB
    (.giveUp point ⟨ht.1.add hm, fun _ _ => hB⟩ hB)

theorem tellExtend_blames {p : LoopPlan}
    (hrepeats : q.grammar.Repeats p.definition p.item p.separator p.repetition) {fuel : Nat}
    {trail : List Split} {cursor : Nat} (hprogress : q.Progress p trail cursor)
    {t : Chronicle × Std.HashSet LoopPoint}
    (ht : Blames.Remembering (Chronicle.Sound q) Chronicle.Blamed t) :
    Blames (Blames.Remembering (Chronicle.Sound q) Chronicle.Blamed) (fun t => t.1.Blamed)
      (q.MakesUp p) t (q.tellExtend tell p fuel trail cursor t) := by
  induction fuel generalizing trail cursor t with
  | zero => exact .stop (by simp) ht
  | succ fuel ih =>
      rw [tellExtend]
      split
      · next hcomplete =>
        obtain rfl : cursor = p.stop := by
          simp only [LoopPlan.isComplete, Bool.and_eq_true, beq_iff_eq] at hcomplete
          exact hcomplete.1.1
        exact .pure ht ⟨hprogress.tiles, hprogress.fit, by rwa [List.reverse_reverse]⟩
      next hincomplete =>
      refine .inspect_bind ?_
      split
      · next hknown => exact .reject ht (ht.2 _ hknown)
      split
      · next hfull =>
        split
        · next hlt =>
          exact note_giveUp_blames (m := ⟨_, trail.reverse⟩) _ ht
            (hprogress.tooManyItems_sound hrepeats hfull hlt)
        · next hge =>
          -- a full loop is complete when nothing is left of its range
          obtain rfl : cursor = p.stop :=
            Nat.le_antisymm hprogress.range.le (Nat.le_of_not_lt hge)
          have hvalid := hg.repeats_isValid hrepeats
          exact absurd (hprogress.room.isComplete hfull hvalid) hincomplete
      next hfull =>
      dsimp only
      split
      · exact note_giveUp_blames (m := ⟨_, trail.reverse⟩) _ ht
          (hprogress.loopFailure_sound hrepeats)
      · next hends =>
        have hne : q.loopEnds p trail cursor ≠ [] := fun h => hends (List.isEmpty_iff.2 h)
        refine .firstOf ht (.inl hne) (fun e he t ht => ?_) fun t ht hB => .giveUp _ ht hB
        obtain ⟨hleft, hright⟩ :=
          isRange_of_mem_allEnds hg hprogress.range (mem_allEnds_of_loopEnds he)
        refine (Blames.onFirst ht (htell _ cursor e t.1 hleft ht.1)).bind ?_
        rintro part t ht ⟨hspan, hfits⟩
        exact ih (hprogress.next hright (Bool.not_eq_true _ ▸ hfull) hspan hfits) ht

theorem tellLoop_blames {p : LoopPlan}
    (hrepeats : q.grammar.Repeats p.definition p.item p.separator p.repetition)
    (hrange : IsRange q.text p.start p.stop) {c : Chronicle} (hc : c.Sound q) :
    Blames (Chronicle.Sound q) Chronicle.Blamed
      (fun s => s.span = ⟨p.start, p.stop⟩ ∧ s.Fits q.grammar q.text p.definition) c
      (q.tellLoop tell p c) := by
  refine .within hc (fun t ht => tellExtend_blames hg htell hrepeats (.start hrange) ht) ?_
  intro elements h
  refine ⟨?_, toSplit_fits hrange hrepeats h.tiles h.fit h.complete⟩
  rw [LoopPlan.toSplit]
  split <;> rfl

/-- When the parts leave blame, so does the whole. -/
theorem tellShape_blames : q.BlamesParts (q.tellShape tell) := by
  intro d start stop c hrange hc
  have hleaf : ∀ fits, (fits = true → (Split.leaf ⟨start, stop⟩).Fits q.grammar q.text d) →
      Blames (Chronicle.Sound q) Chronicle.Blamed
        (fun s => s.span = ⟨start, stop⟩ ∧ s.Fits q.grammar q.text d) c
        (tellLeaf d start stop fits c) := by
    intro fits hfits
    rw [tellLeaf]
    split
    · next h => exact .pure hc ⟨rfl, hfits h⟩
    · exact fail_blames hc ⟨hrange, trivial⟩
  have hstructural := hg.target?_shape d
  rw [tellShape]
  cases hshape : q.grammar.shape d with
  | literal text => exact hleaf _ (literal_fits hrange hshape)
  | pattern source => exact hleaf _ (pattern_fits hrange hg hshape)
  | empty => exact hleaf _ (empty_fits hrange hshape)
  | sequence items => exact tellSequence_blames hg htell hshape hrange hc
  | choice alternatives => exact tellChoice_blames htell hshape hrange List.drop_zero hc
  | optional item quantifier =>
      dsimp only
      split
      · next hempty =>
        refine .pure hc ⟨rfl, ?_⟩
        rw [Split.Fits]
        exact ⟨hrange, hempty, item, quantifier, hshape⟩
      · next hne =>
        refine (htell item start stop c hrange hc).bind fun inner c hc hinner => ?_
        obtain ⟨hspan, hfits⟩ := hinner
        refine .pure hc ⟨rfl, ?_⟩
        rw [Split.Fits]
        exact ⟨hrange, Nat.lt_of_le_of_ne hrange.le hne, hspan, item, quantifier, hshape, hfits⟩
  | loop item repetition =>
      exact tellLoop_blames hg htell (p := q.loopPlan d item none repetition start stop) hshape
        hrange hc
  | separated item separator default repetition =>
      exact tellLoop_blames hg htell
        (p := q.loopPlan d item (some separator) repetition start stop) ⟨default, hshape⟩ hrange hc
  | «alias» target name => rw [hshape] at hstructural; cases hstructural
  | forward target => rw [hshape] at hstructural; cases hstructural
  | withDefault content target => rw [hshape] at hstructural; cases hstructural

end Shapes

/-- **Every rejection of a part leaves somebody to blame.** -/
theorem tell_blames (hg : q.grammar.Valid) (fuel : Nat) (active : List Part) :
    q.BlamesParts (q.tell fuel active) := by
  induction fuel generalizing active with
  | zero => exact fun d start stop c _ hc => .stop (by simp) hc
  | succ fuel ih =>
      intro d start stop c hrange hc
      have hshape := tellShape_blames hg (ih (⟨q.grammar.resolve d, start, stop⟩ :: active)) d start
        stop c hrange hc
      rw [tell]
      dsimp only
      split
      · next hfailed => exact .reject hc (hc.failed _ hfailed)
      split
      · exact .error ⟨hc.met, fun _ _ => .inr (Nat.succ_pos _)⟩ (fun _ => .inr (Nat.succ_pos _))
          fun _ => .inr (Nat.succ_pos _)
      split
      · exact .stop (by simp) hc
      rcases hr : q.tellShape (q.tell fuel (⟨q.grammar.resolve d, start, stop⟩ :: active)) d start
        stop c with ⟨e | split, c'⟩
      · rw [hr] at hshape
        dsimp only
        split
        · next h =>
          obtain ⟨rfl, -⟩ := h
          have hB : c'.Blamed := hshape.blamed rfl
          exact .error ⟨hshape.keeps.met, fun _ _ => hB⟩ (fun _ => hB) fun _ => hB
        · exact hshape
      · rwa [hr] at hshape

/-- A whole search leaves a sound account, and blame when it is rejected. -/
theorem tellRun_blames (hg : q.grammar.Valid) (d : DefId) :
    (q.tellRun d).2.Sound q ∧ ((q.tellRun d).1 = .error .rejected → (q.tellRun d).2.Blamed) := by
  have h := tell_blames hg (partCount q.grammar.size (byteLength q.text) + 1) [] d 0
    (byteLength q.text) ⟨∅, 0, []⟩ (.whole q.text) ⟨by simp, by simp⟩
  exact ⟨h.keeps, h.blamed⟩

/-- What is reported about a failure. -/
def rejection (q : Query) (f : Failure) : Rejection where
  definition := f.definition
  name := q.grammar.name? f.definition
  regex := if f.reason = .noAlternative then none else some (q.grammar.regex f.definition)
  content := q.text
  start := f.start
  stop := f.stop
  reason := f.reason

end Query

/-! ### What is reported -/

/-- **A rejection reports the deepest failure of a search.** -/
structure Rejection.Deepest (r : Rejection) (q : Query) (d : DefId) : Prop where
  content : r.content = q.text
  range : IsRange q.text r.start r.stop
  /-- No failure begins further into the text. -/
  furthest : ∀ m ∈ (q.tellRun d).2.met, m.failure.start ≤ r.start
  /-- Of the failures that begin there it is the one that was met last. -/
  last : (q.tellRun d).2.met ≠ [] →
    ∃ m, LastDeepest (q.tellRun d).2.met m ∧ r = q.rejection m.failure
  /-- Fewer items were found than are needed, and nothing is left of the range. -/
  tooFewItems : r.reason = .tooFewItems → r.start = r.stop ∧
    ∃ m p, LastDeepest (q.tellRun d).2.met m ∧ r = q.rejection m.failure ∧ m.After q p ∧
      p.count m.found < p.repetition.min
  leftOver : r.reason = .tooManyItems ∨ r.reason = .trailingContent → r.start < r.stop
  /-- Without any failure a part was refused because the search was inside of it already. -/
  silent : (q.tellRun d).2.met = [] → 0 < (q.tellRun d).2.refusals ∧
    r = q.rejection ⟨d, 0, byteLength q.text, .mismatch⟩

namespace Query

variable {q : Query} {d : DefId}

/-- What is reported about a search with the account, when the search is rejected. -/
theorem report_deepest {s : SearchState} {c : Chronicle} (hc : (q.tellRun d).2 = c)
    (hs : Recounts s c) (hsound : c.Sound q) (hblamed : c.Blamed) :
    (q.report d s).Deepest q d := by
  have hreport : q.report d s =
      q.rejection ((deepest? c.met).getD ⟨d, 0, byteLength q.text, .mismatch⟩) := by
    rw [← hs.furthest]
    rfl
  rw [hreport]
  cases hdeepest : deepest? c.met with
  | none =>
      have hnone := deepest?_eq_none_iff.1 hdeepest
      exact {
        content := rfl
        range := .whole q.text
        furthest := by simp [hc, hnone]
        last := fun h => absurd (hc ▸ hnone) h
        tooFewItems := nofun
        leftOver := by rintro (h | h) <;> cases h
        silent := fun _ => ⟨hc ▸ hblamed.resolve_left fun h => h hnone, rfl⟩ }
  | some f =>
      obtain ⟨m, hlast, rfl⟩ := exists_lastDeepest hdeepest
      obtain ⟨hrange, hexplained⟩ := hsound.met m hlast.mem
      exact {
        content := rfl
        range := hrange
        furthest := fun x hx => hlast.le (hc ▸ hx)
        last := fun _ => ⟨m, hc ▸ hlast, rfl⟩
        tooFewItems := fun h => by
          have hreason : m.failure.reason = .tooFewItems := h
          rw [Met.Explained, hreason] at hexplained
          obtain ⟨hempty, p, hafter, hbelow⟩ := hexplained
          exact ⟨hempty, m, p, hc ▸ hlast, rfl, hafter, hbelow⟩
        leftOver := fun h => by
          have hreason : m.failure.reason = .tooManyItems ∨ m.failure.reason = .trailingContent := h
          rcases hreason with hreason | hreason <;>
            (rw [Met.Explained, hreason] at hexplained; exact hexplained.1)
        silent := fun h => absurd (hc ▸ h) (List.ne_nil_of_mem hlast.mem) }

end Query

/-- **What is reported is the last of the failures that begin furthest.**  For every grammar and every
text that is rejected: the search that leaves out no candidate was rejected, it went in step with its
account, and the rejection reports the deepest of the failures in this account; without any failure it
reports a mismatch of the definition over the whole text, and then a part was refused. -/
theorem resolve_deepest {draft : Draft} {g : Grammar} (hbuild : draft.build = .ok g) {d : DefId}
    {text : Text} {r : Rejection} (h : (resolve g d text).result = .error (.rejected r)) :
    (Query.run ⟨g, text, false⟩ d).1 = .error .rejected ∧
      Recounts (Query.run ⟨g, text, false⟩ d).2 (Query.tellRun ⟨g, text, false⟩ d).2 ∧
      r.Deepest ⟨g, text, false⟩ d := by
  have hg := Draft.build_valid hbuild
  obtain ⟨s, hs, rfl⟩ := resolve_rejected h
  obtain ⟨hresult, hrecounts⟩ := Query.run_inStep (q := ⟨g, text, false⟩) rfl d
  obtain ⟨hsound, hblamed⟩ := Query.tellRun_blames (q := ⟨g, text, false⟩) hg d
  have hrejected : (Query.tellRun ⟨g, text, false⟩ d).1 = .error .rejected := by
    rw [← hresult, hs]
  refine ⟨by rw [hs], hrecounts, Query.report_deepest rfl ?_ hsound (hblamed hrejected)⟩
  rwa [hs] at hrecounts

/-- The missing letter is the last of the failures that begin furthest: nothing that was tried failed
further on. -/
theorem resolve_deepest_eager :
    eagerDraft.build = .ok eagerGrammar ∧
      (resolve eagerGrammar 3 ['a', '漢']).result = .error (.rejected eagerRejection) ∧
      (∀ m ∈ (eagerQuery.tellRun 3).2.met, m.failure.start ≤ 1) ∧
      ∃ m, LastDeepest (eagerQuery.tellRun 3).2.met m ∧
        eagerRejection = eagerQuery.rejection m.failure := by
  obtain ⟨-, -, hdeepest⟩ := resolve_deepest eagerDraft_build resolve_eager
  have hmet : (eagerQuery.tellRun 3).2.met ≠ [] := by
    intro hnone
    -- without any failure the rejection would begin where the text does
    have hstart := congrArg Rejection.start (hdeepest.silent hnone).2
    exact absurd hstart (by decide)
  exact ⟨eagerDraft_build, resolve_eager, hdeepest.furthest, hdeepest.last hmet⟩

end Tessera
