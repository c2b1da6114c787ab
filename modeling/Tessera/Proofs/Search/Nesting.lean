/-
**How deep a search nests.**

What happened tells which parts a search is inside of: a part is entered and later accepted or
rejected, and what was entered last is left first.  The search is never inside of a part twice, so it
nests no deeper than there are parts of the text.

Main definitions:

* `Tessera.openParts` — the parts that were entered and not left;
* `Tessera.Query.OnPath` — the open parts are those that the search takes itself to be inside of.

Main results:

* `Tessera.Query.run_onPath` — at every moment of a search the open parts differ from each other;
* `Tessera.search_ends` — **every search ends**: it does not run out of fuel, more fuel changes
  nothing, it nests no deeper than there are parts, and its loops run out of things to try.
-/

import Tessera.Proofs.Search.Agreement
import Tessera.Proofs.Search.Trails

set_option autoImplicit false

namespace Tessera

/-- The parts that were entered and not left, the latest first, after what happened, which is given
latest first. -/
def openParts (g : Grammar) : List Event → List Part
  | [] => []
  | .enter d start stop :: events => ⟨g.resolve d, start, stop⟩ :: openParts g events
  | .accept _ _ _ :: events => (openParts g events).tail
  | .reject _ _ _ :: events => (openParts g events).tail
  | .backtrack _ _ :: events => openParts g events

namespace Query

variable {q : Query} {active : List Part} {s : SearchState}

/-- The open parts differ from each other and are parts of the text. -/
structure Apart (q : Query) (events : List Event) : Prop where
  nodup : (openParts q.grammar events).Nodup
  mem : ∀ part ∈ openParts q.grammar events,
    part ∈ allParts q.grammar.size (byteLength q.text)

/-- The search is inside of the parts `active`, and at every moment up to now it was inside of parts
that differ from each other. -/
structure OnPath (q : Query) (active : List Part) (s : SearchState) : Prop where
  now : openParts q.grammar s.events = active
  ever : ∀ events, events <:+ s.events → q.Apart events

/-- A further event continues the path when the parts that are then open differ. -/
theorem OnPath.happen {active' : List Part} {e : Event} (h : q.OnPath active s)
    (hopen : openParts q.grammar (e :: s.events) = active') (hnodup : active'.Nodup)
    (hmem : ∀ part ∈ active', part ∈ allParts q.grammar.size (byteLength q.text)) :
    q.OnPath active' (s.happen e) where
  now := hopen
  ever := by
    intro events hsuffix
    rcases List.suffix_cons_iff.1 hsuffix with rfl | hsuffix
    · exact ⟨hopen.symm ▸ hnodup, hopen.symm ▸ hmem⟩
    · exact h.ever events hsuffix

theorem OnPath.nodup (h : q.OnPath active s) : active.Nodup :=
  h.now ▸ (h.ever s.events List.suffix_rfl).nodup

theorem OnPath.mem (h : q.OnPath active s) :
    ∀ part ∈ active, part ∈ allParts q.grammar.size (byteLength q.text) :=
  h.now ▸ (h.ever s.events List.suffix_rfl).mem

/-- Leaving the part that was entered last. -/
theorem OnPath.leave {part : Part} {e : Event} (h : q.OnPath (part :: active) s)
    (he : openParts q.grammar (e :: s.events) = (openParts q.grammar s.events).tail) :
    q.OnPath active (s.happen e) := by
  have hopen : openParts q.grammar (e :: s.events) = active := by
    rw [he, h.now, List.tail_cons]
  exact h.happen hopen (List.nodup_cons.1 h.nodup).2 (List.forall_mem_cons.1 h.mem).2

/-- Only events say where a search is. -/
theorem OnPath.congr {s' : SearchState} (h : q.OnPath active s) (hevents : s'.events = s.events) :
    q.OnPath active s' :=
  ⟨hevents ▸ h.now, hevents ▸ h.ever⟩

theorem record_events (s : SearchState) (f : Failure) : (s.record f).events = s.events := by
  rw [SearchState.record]
  split
  · rfl
  · split <;> rfl

/-- **Every step of a search keeps to its path.** -/
theorem guide_onPath (q : Query) : q.Guide q.OnPath (· ≠ .outOfFuel) where
  rejected := by decide
  limited _ := by decide
  steady active :=
    { note := fun s f _ h => h.congr (record_events s f)
      backtrack := fun s d e h => h.happen h.now h.nodup h.mem }
  refuse _ _ h := h.congr rfl
  giveUp _ _ _ h := h.congr rfl
  enter active s d start stop hfresh hpart h := by
    have hopen : openParts q.grammar (.enter d start stop :: s.events) =
        ⟨q.grammar.resolve d, start, stop⟩ :: active := by
      rw [openParts, h.now]
    exact h.happen hopen (List.nodup_cons.2 ⟨hfresh, h.nodup⟩)
      (List.forall_mem_cons.2 ⟨hpart, h.mem⟩)
  accept _ _ _ _ _ _ h := h.leave rfl
  reject _ _ _ _ _ _ h := h.leave rfl

/-- A search of a whole text begins inside of nothing and ends there, and on the way it is never
inside of a part twice. -/
theorem run_onPath (hg : q.grammar.Valid) {d : DefId} (hd : d < q.grammar.size) :
    q.OnPath [] (q.run d).2 ∧ (q.run d).1 ≠ .error .outOfFuel := by
  have hstart : q.OnPath [] SearchState.start := by
    refine ⟨rfl, fun events hsuffix => ?_⟩
    obtain rfl : events = [] := List.suffix_nil.1 hsuffix
    exact ⟨List.nodup_nil, fun part hpart => nomatch hpart⟩
  have hguided : q.GuidesParts (q.OnPath []) (· ≠ .outOfFuel)
      (q.parse (partCount q.grammar.size (byteLength q.text) + 1) []) :=
    parse_guided hg (guide_onPath q) List.nodup_nil (by simp) (by simp)
  obtain ⟨hpath, hends⟩ := hguided d 0 _ hd (IsRange.whole q.text) _ hstart
  refine ⟨hpath, fun hfuel => ?_⟩
  rw [run] at hfuel
  rw [hfuel] at hends
  exact hends rfl

/-- More fuel than there are parts changes nothing. -/
theorem parse_eq_run (hg : q.grammar.Valid) {d : DefId} (hd : d < q.grammar.size) {fuel : Nat}
    (hfuel : partCount q.grammar.size (byteLength q.text) < fuel) :
    q.parse fuel [] d 0 (byteLength q.text) SearchState.start = q.run d :=
  congrFun (parse_congr hg List.nodup_nil (by simp) hfuel (Nat.lt_succ_self _) d 0 _ hd
    (IsRange.whole q.text)) SearchState.start

end Query

/-- **Every search ends.**  For every grammar, with and without a recursion limit and with and
without pruning: the search does not run out of fuel, and more fuel would change nothing.  At every
moment the parts that are entered and not left differ from each other, so they are not more than
the parts of the text.  Every loop runs out of things to try. -/
theorem search_ends {draft : Draft} {g : Grammar} (hbuild : draft.build = .ok g) {d : DefId}
    (hd : d < g.size) (text : Text) (prune : Bool) :
    let q : Query := ⟨g, text, prune⟩
    let bytes := byteLength text
    let parts := g.size * ((bytes + 1) * (bytes + 2) / 2)
    (q.run d).1 ≠ .error .outOfFuel ∧
      (∀ fuel, parts < fuel → q.parse fuel [] d 0 bytes SearchState.start = q.run d) ∧
      (∀ events, events <:+ (q.run d).2.events →
        (openParts g events).Nodup ∧ (openParts g events).length ≤ parts) ∧
      ∀ p : LoopPlan, IsRange text p.start p.stop → q.Exhaustible p := by
  intro q bytes parts
  have hg : q.grammar.Valid := Draft.build_valid hbuild
  obtain ⟨hpath, hfuel⟩ := Query.run_onPath hg hd
  refine ⟨hfuel, fun fuel hlt => Query.parse_eq_run hg hd hlt, fun events hsuffix => ?_,
    fun p hrange => Query.exhaustible hg hrange⟩
  have hapart := hpath.ever events hsuffix
  exact ⟨hapart.nodup, length_le_partCount hapart.nodup hapart.mem⟩

/-- Rows are left-recursive: each begins with a row that may be as long. -/
theorem search_ends_row :
    rowDraft.build = .ok rowGrammar ∧ 0 < rowGrammar.size ∧
      (Query.run ⟨rowGrammar, ['a', 'a'], true⟩ 0).1 ≠ .error .outOfFuel ∧
      ∀ p : LoopPlan, IsRange ['a', 'a'] p.start p.stop →
        Query.Exhaustible ⟨rowGrammar, ['a', 'a'], true⟩ p :=
  have h := search_ends rowDraft_build (d := 0) (by decide) ['a', 'a'] true
  ⟨rowDraft_build, by decide, h.1, h.2.2.2⟩

end Tessera
