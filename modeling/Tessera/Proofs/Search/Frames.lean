/-
**The frames of a search.**

Whoever listens to a search hears which definition is entered over which range, and whether it accepted
or rejected it.  An entered definition is a frame that is open until it is closed, and frames are closed
in the opposite order, with the same definition and the same range.  What is heard while a frame is open
lies inside of its range: the ranges that are entered and the offsets that are given up.

A search is heard as one frame, or not at all.  This does not depend on how it ends: a part that was
found impossible before or that would be entered inside of itself is not entered at all, and the
recursion limit closes all open frames on its way out.

Main definitions:

* `Tessera.Frame` — a definition that is being tried on a range;
* `Tessera.framesAfter` — the frames that are open after some events, if they are in order;
* `Tessera.Frame.Encloses` — events inside of an open frame;
* `Tessera.Frame.Heard` — the events of one search;
* `Tessera.depthAfter` — how deep an indentation goes that only counts.

Main results:

* `Tessera.depthAfter_eq_length` — the indentation is the number of open frames;
* `Tessera.Query.parse_heard` — **a search for a part is heard as one frame or not at all**;
* `Tessera.resolve_heard` — the frames of a search for a split of a text;
* `Tessera.resolve_frames` — **every frame is closed, and the last one tells how the search ended.**
-/

import Tessera.Proofs.Search.Nesting
import Tessera.Search.Resolve

set_option autoImplicit false

namespace Tessera

/-- A definition that is being tried on a range. -/
structure Frame where
  definition : DefId
  start : Nat
  stop : Nat
  deriving DecidableEq, Repr

/-- The frames that are open after an event, the one that was opened last first.  An entered range lies
inside of the innermost frame; an accepted or rejected range closes it and must be the same; an offset
that is given up lies inside of it and belongs to its definition. -/
def Event.frames : List Frame → Event → Option (List Frame)
  | fs, .enter d start stop =>
      if start ≤ stop ∧ ∀ f ∈ fs.head?, f.start ≤ start ∧ stop ≤ f.stop then
        some (⟨d, start, stop⟩ :: fs)
      else none
  | f :: fs, .accept d start stop => if f = ⟨d, start, stop⟩ then some fs else none
  | f :: fs, .reject d start stop => if f = ⟨d, start, stop⟩ then some fs else none
  | f :: fs, .backtrack d offset =>
      if f.definition = d ∧ f.start ≤ offset ∧ offset ≤ f.stop then some (f :: fs) else none
  | [], _ => none

/-- The frames that are open after some events; there is nothing if an event is out of order. -/
def framesAfter (fs : List Frame) (events : List Event) : Option (List Frame) :=
  events.foldlM Event.frames fs

@[simp] theorem framesAfter_nil (fs : List Frame) : framesAfter fs [] = some fs := rfl

theorem framesAfter_cons (fs : List Frame) (e : Event) (events : List Event) :
    framesAfter fs (e :: events) = (e.frames fs).bind (framesAfter · events) := rfl

theorem framesAfter_append (fs : List Frame) (events later : List Event) :
    framesAfter fs (events ++ later) = (framesAfter fs events).bind (framesAfter · later) :=
  List.foldlM_append

/-! ### Indentation -/

/-- An indentation after an event: an entered definition indents what follows, and a closed one takes it
back as far as there is any. -/
def Event.depth : Nat → Event → Nat
  | depth, .enter _ _ _ => depth + 1
  | depth, .accept _ _ _ => depth - 1
  | depth, .reject _ _ _ => depth - 1
  | depth, .backtrack _ _ => depth

/-- An indentation after some events. -/
def depthAfter (depth : Nat) (events : List Event) : Nat := events.foldl Event.depth depth

/-- While events are in order, one more or one less frame is one more or one less indentation. -/
theorem Event.depth_eq_length {e : Event} {fs fs' : List Frame} (h : e.frames fs = some fs') :
    Event.depth fs.length e = fs'.length := by
  cases e with
  | enter d start stop =>
      obtain ⟨-, h⟩ := Option.ite_none_right_eq_some.1 h
      rw [← Option.some.inj h]
      rfl
  | accept d start stop | reject d start stop =>
      cases fs with
      | nil => cases h
      | cons f fs =>
          obtain ⟨-, h⟩ := Option.ite_none_right_eq_some.1 h
          rw [← Option.some.inj h]
          rfl
  | backtrack d offset =>
      cases fs with
      | nil => cases h
      | cons f fs =>
          obtain ⟨-, h⟩ := Option.ite_none_right_eq_some.1 h
          rw [← Option.some.inj h]
          rfl

/-- **The indentation is the number of open frames**, so it is never cut off. -/
theorem depthAfter_eq_length {events : List Event} {fs fs' : List Frame}
    (h : framesAfter fs events = some fs') : depthAfter fs.length events = fs'.length := by
  induction events generalizing fs with
  | nil => rw [← Option.some.inj h]; rfl
  | cons e events ih =>
      rw [framesAfter_cons] at h
      obtain ⟨fs₁, he, hrest⟩ := Option.bind_eq_some_iff.1 h
      rw [depthAfter, List.foldl_cons, Event.depth_eq_length he]
      exact ih hrest

/-! ### One frame -/

namespace Frame

variable {f f' : Frame} {events later : List Event} {accepted : Bool}

/-- The event that closes a frame. -/
def close (f : Frame) (accepted : Bool) : Event :=
  if accepted then .accept f.definition f.start f.stop else .reject f.definition f.start f.stop

/-- The event that opens a frame. -/
def opening (f : Frame) : Event := .enter f.definition f.start f.stop

/-- Events inside of an open frame: afterwards the same frames are open as before. -/
def Encloses (f : Frame) (events : List Event) : Prop :=
  ∀ fs, framesAfter (f :: fs) events = some (f :: fs)

/-- The events of one search: the frame with its close, or nothing if it was not entered. -/
def Heard (f : Frame) (accepted : Bool) (events : List Event) : Prop :=
  events = [] ∧ accepted = false ∨
    ∃ inner, f.Encloses inner ∧ events = f.opening :: inner ++ [f.close accepted]

/-- One range lies inside of another. -/
structure Inside (f' f : Frame) : Prop where
  start : f.start ≤ f'.start
  le : f'.start ≤ f'.stop
  stop : f'.stop ≤ f.stop

/-- A close fits the innermost frame. -/
theorem frames_close (f : Frame) (accepted : Bool) (fs : List Frame) :
    (f.close accepted).frames (f :: fs) = some fs := by
  cases accepted <;> exact if_pos rfl

theorem Encloses.nil (f : Frame) : f.Encloses [] := fun _ => rfl

theorem Encloses.append (h : f.Encloses events) (h' : f.Encloses later) :
    f.Encloses (events ++ later) := by
  intro fs
  rw [framesAfter_append, h]
  exact h' fs

/-- An offset inside of the range is given up. -/
theorem Encloses.backtrack {offset : Nat} (hstart : f.start ≤ offset) (hstop : offset ≤ f.stop) :
    f.Encloses [.backtrack f.definition offset] :=
  fun _ => congrArg (Option.bind · some) (if_pos ⟨rfl, hstart, hstop⟩)

/-- The frame with what it encloses, over any frames around. -/
theorem framesAfter_whole {inner : List Event} {fs : List Frame} (hinner : f.Encloses inner)
    (hle : f.start ≤ f.stop) (hin : ∀ g ∈ fs.head?, g.start ≤ f.start ∧ f.stop ≤ g.stop) :
    framesAfter fs (f.opening :: inner ++ [f.close accepted]) = some fs := by
  have hopen : f.opening.frames fs = some (f :: fs) := if_pos ⟨hle, hin⟩
  rw [List.cons_append, framesAfter_cons, hopen, Option.bind_some, framesAfter_append, hinner,
    Option.bind_some, framesAfter_cons, frames_close]
  rfl

/-- A search over a range inside of a frame stays inside of it. -/
theorem Heard.encloses (h : f'.Heard accepted events) (hin : f'.Inside f) : f.Encloses events := by
  rcases h with ⟨rfl, -⟩ | ⟨inner, hinner, rfl⟩
  · exact .nil f
  · intro fs
    refine framesAfter_whole hinner hin.le fun g hg => ?_
    obtain rfl : f = g := Option.some.inj hg
    exact ⟨hin.start, hin.stop⟩

/-- A search that begins with no open frame ends with none. -/
theorem Heard.framesAfter (h : f.Heard accepted events) (hle : f.start ≤ f.stop) :
    Tessera.framesAfter [] events = some [] := by
  rcases h with ⟨rfl, -⟩ | ⟨inner, hinner, rfl⟩
  · rfl
  · exact framesAfter_whole hinner hle (by simp)

/-- The last event of a search closes its frame. -/
theorem Heard.getLast? (h : f.Heard accepted events) (hne : events ≠ []) :
    events.getLast? = some (f.close accepted) := by
  rcases h with ⟨rfl, -⟩ | ⟨inner, -, rfl⟩
  · exact absurd rfl hne
  · exact List.getLast?_concat

end Frame

/-! ### The search -/

namespace Query

open Attempt

variable {q : Query} {f : Frame} {base : List Event} {s : SearchState}

/-- Since the events `base` only such happened that the frame encloses. -/
def Since (f : Frame) (base : List Event) (s : SearchState) : Prop :=
  ∃ events, s.events = events.reverse ++ base ∧ f.Encloses events

theorem Since.refl (f : Frame) (s : SearchState) : Since f s.events s := ⟨[], rfl, .nil f⟩

/-- Events that the frame encloses may follow. -/
theorem Since.trans {s' : SearchState} (h : Since f base s) (h' : Since f s.events s') :
    Since f base s' := by
  obtain ⟨events, hevents, hencloses⟩ := h
  obtain ⟨later, hlater, hencloses'⟩ := h'
  refine ⟨events ++ later, ?_, hencloses.append hencloses'⟩
  rw [hlater, hevents, List.reverse_append, List.append_assoc]

/-- Inside of its frame a definition notes failures and gives candidates up. -/
theorem steadyOn_since (q : Query) (f : Frame) (base : List Event) :
    q.SteadyOn (Since f base) f.definition f.start f.stop where
  note s e _ h := by
    rwa [Since, record_events]
  backtrack s e hstart hstop h := h.trans ⟨[.backtrack f.definition e], rfl, .backtrack hstart hstop⟩

/-- **A search for a part is heard as one frame or not at all**, however it ends; when it succeeds the
frame is accepted, and otherwise rejected. -/
theorem parse_heard (hg : q.grammar.Valid) (fuel : Nat) (active : List Part) {d : DefId}
    {start stop : Nat} (hrange : IsRange q.text start stop) (s : SearchState) :
    (∀ x, (q.parse fuel active d start stop s).1 = .ok x → x.span = ⟨start, stop⟩) ∧
      ∃ events, (q.parse fuel active d start stop s).2.events = events.reverse ++ s.events ∧
        (⟨d, start, stop⟩ : Frame).Heard (q.parse fuel active d start stop s).1.isOk events := by
  induction fuel generalizing active d start stop s with
  | zero => exact ⟨fun x hx => (by cases hx), [], rfl, .inl ⟨rfl, rfl⟩⟩
  | succ fuel ih =>
      simp only [parse]
      -- a part that is not entered is not heard
      split
      · exact ⟨fun x hx => (by cases hx), [], rfl, .inl ⟨rfl, rfl⟩⟩
      split
      · exact ⟨fun x hx => (by cases hx), [], rfl, .inl ⟨rfl, rfl⟩⟩
      split
      · exact ⟨fun x hx => (by cases hx), [], rfl, .inl ⟨rfl, rfl⟩⟩
      have hcalls : ∀ c a b, q.Calls (fun _ => True) d start stop c a b →
          Guided (Since ⟨d, start, stop⟩ (s.happen (.enter d start stop)).events) (fun _ => True)
            (fun x => x.span = ⟨a, b⟩ ∧ (a = b → True))
            (q.parse fuel (⟨q.grammar.resolve d, start, stop⟩ :: active) c a b) := by
        intro c a b hcall s' hs'
        obtain ⟨hspan, events, hevents, hheard⟩ := ih
          (⟨q.grammar.resolve d, start, stop⟩ :: active) (d := c) hcall.range s'
        have hinside : (⟨c, a, b⟩ : Frame).Inside ⟨d, start, stop⟩ :=
          ⟨hcall.left, hcall.range.le, hcall.right⟩
        refine ⟨hs'.trans ⟨events, hevents, hheard.encloses hinside⟩, ?_⟩
        generalize q.parse fuel (⟨q.grammar.resolve d, start, stop⟩ :: active) c a b s' = r at hspan
        obtain ⟨r, s''⟩ := r
        cases r with
        | error e => trivial
        | ok x => exact ⟨hspan x rfl, fun _ => trivial⟩
      obtain ⟨⟨inner, hevents, hinner⟩, hspan⟩ := parseShape_guided hg
        (steadyOn_since q ⟨d, start, stop⟩ (s.happen (.enter d start stop)).events) trivial hrange
        hcalls (s.happen (.enter d start stop)) (.refl _ _)
      have hwhole : ∀ accepted : Bool, (⟨d, start, stop⟩ : Frame).close accepted ::
          (inner.reverse ++ (s.happen (.enter d start stop)).events) =
            ((⟨d, start, stop⟩ : Frame).opening :: inner ++
              [(⟨d, start, stop⟩ : Frame).close accepted]).reverse ++ s.events := by
        intro accepted
        simp [Frame.opening, SearchState.happen]
      split
      · next hr =>
        rw [hr] at hevents hspan
        refine ⟨fun y hy => (Except.ok.inj hy) ▸ hspan, _, ?_, .inr ⟨inner, hinner, rfl⟩⟩
        rw [← hwhole, ← hevents]
        rfl
      · next hr =>
        rw [hr] at hevents
        have hclosed : ∀ s' : SearchState, s'.events = (⟨d, start, stop⟩ : Frame).close false ::
            (inner.reverse ++ (s.happen (.enter d start stop)).events) →
              ∃ events, s'.events = events.reverse ++ s.events ∧
                (⟨d, start, stop⟩ : Frame).Heard false events :=
          fun s' hs' => ⟨_, hs'.trans (hwhole false), .inr ⟨inner, hinner, rfl⟩⟩
        split <;> exact ⟨fun x hx => (by cases hx), hclosed _ (congrArg _ hevents)⟩

/-- A search of a whole text is heard as one frame or not at all. -/
theorem run_heard (hg : q.grammar.Valid) (d : DefId) :
    (⟨d, 0, byteLength q.text⟩ : Frame).Heard (q.run d).1.isOk (q.run d).2.events.reverse := by
  obtain ⟨-, events, hevents, hheard⟩ := parse_heard hg
    (partCount q.grammar.size (byteLength q.text) + 1) [] (d := d) (IsRange.whole q.text)
    SearchState.start
  have hrun : (q.run d).2.events = events.reverse := hevents.trans (List.append_nil _)
  rw [hrun, List.reverse_reverse]
  exact hheard

end Query

/-- **The frames of a search for a split of a text**: a search that was given up, if there was one, and
then the search that decides, each over the whole text. -/
theorem resolve_heard {g : Grammar} (hg : g.Valid) (d : DefId) (text : Text) :
    ∃ earlier last, (resolve g d text).events = earlier ++ last ∧
      (⟨d, 0, byteLength text⟩ : Frame).Heard false earlier ∧
      (⟨d, 0, byteLength text⟩ : Frame).Heard (resolve g d text).result.isOk last := by
  have hfully : ∀ before : List Event, (⟨d, 0, byteLength text⟩ : Frame).Heard false before.reverse →
      ∃ earlier last, (resolveFully g d text before).events = earlier ++ last ∧
        (⟨d, 0, byteLength text⟩ : Frame).Heard false earlier ∧
        (⟨d, 0, byteLength text⟩ : Frame).Heard (resolveFully g d text before).result.isOk last := by
    intro before hbefore
    have hrun := Query.run_heard (q := ⟨g, text, false⟩) hg d
    rw [resolveFully]
    split <;> next hr =>
      rw [hr] at hrun
      exact ⟨before.reverse, _, List.reverse_append, hbefore, hrun⟩
  have hrun := Query.run_heard (q := ⟨g, text, true⟩) hg d
  rw [resolve]
  split
  · split
    · next hr => rw [hr] at hrun; exact ⟨[], _, rfl, .inl ⟨rfl, rfl⟩, hrun⟩
    · next hr => rw [hr] at hrun; exact hfully _ hrun
    · next hr => rw [hr] at hrun; exact ⟨[], _, rfl, .inl ⟨rfl, rfl⟩, hrun⟩
  · exact hfully [] (.inl ⟨rfl, rfl⟩)

/-- **Every frame is closed, and the last one tells how the search ended.** -/
theorem resolve_frames {g : Grammar} (hg : g.Valid) (d : DefId) (text : Text) :
    framesAfter [] (resolve g d text).events = some [] ∧
      ∀ e, (resolve g d text).events.getLast? = some e →
        e = (⟨d, 0, byteLength text⟩ : Frame).close (resolve g d text).result.isOk := by
  obtain ⟨earlier, last, hevents, hearlier, hlast⟩ := resolve_heard hg d text
  refine ⟨?_, fun e he => ?_⟩
  · rw [hevents, framesAfter_append, hearlier.framesAfter (Nat.zero_le _), Option.bind_some,
      hlast.framesAfter (Nat.zero_le _)]
  · rw [hevents] at he
    by_cases hempty : last = []
    · -- the search that decides was not heard, so it was rejected, as the earlier one was
      have hrejected : (resolve g d text).result.isOk = false := by
        rcases hlast with ⟨-, hrejected⟩ | ⟨inner, -, hinner⟩
        · exact hrejected
        · simp [hempty] at hinner
      rw [hempty, List.append_nil] at he
      have hne : earlier ≠ [] := by
        rintro rfl
        cases he
      rw [hrejected]
      exact Option.some.inj (he.symm.trans (hearlier.getLast? hne))
    · rw [List.getLast?_append_of_ne_nil _ hempty, hlast.getLast? hempty] at he
      exact (Option.some.inj he).symm

end Tessera
