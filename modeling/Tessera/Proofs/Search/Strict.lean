/-
**Searches without faults.**

A strict search stops with a fault where the search would go on with a default.  In a grammar that
was built, on a definition of that grammar, and on a range between two boundaries of the text, no
fault is ever come upon: the strict search is the search.

Three things are carried along the search for that.  Every part is tried on a definition of the
grammar, because all definitions that a rule mentions exist.  Every part is tried on a range between
boundaries, because every candidate cuts its range in two.  And the failure that is recorded is one
of a definition of the grammar, because it is the definition of a part that was tried.

Main definitions:

* `Tessera.Grammar.Tabled` — a valid grammar with an entry for each definition in its tables;
* `Tessera.StrictAttempt.Runs` — a strict attempt does what an attempt does, without a fault;
* `Tessera.Strict.Covers` — a filter has a flag for each offset of a range.

Main results:

* `Tessera.Strict.parse_runs` — **the search for a split of a part comes upon no fault**;
* `Tessera.Strict.resolve_eq` — **the search for the split of a whole text comes upon no fault**.
-/

import Tessera.Proofs.Search.Ranges
import Tessera.Search.Strict

set_option autoImplicit false

namespace Tessera

/-! ### Grammars with full tables -/

/-- A valid grammar with an entry for each definition in its tables. -/
structure Grammar.Tabled (g : Grammar) : Prop extends Grammar.Valid g where
  resolved_size : g.resolved.size = g.size

/-- **The grammar of a draft has full tables.** -/
theorem Draft.build_tabled {draft : Draft} {g : Grammar} (h : draft.build = .ok g) :
    g.Tabled := by
  refine ⟨build_valid h, ?_⟩
  obtain ⟨rules, _, h⟩ := Except.bind_eq_ok.1 h
  obtain ⟨⟨⟩, _, h⟩ := Except.bind_eq_ok.1 h
  obtain ⟨leaves, _, h⟩ := Except.bind_eq_ok.1 h
  obtain ⟨resolved, hresolved, h⟩ := Except.bind_eq_ok.1 h
  obtain ⟨⟨⟩, _, h⟩ := Except.bind_eq_ok.1 h
  obtain ⟨⟨⟩, _, h⟩ := Except.bind_eq_ok.1 h
  have hlength := (mapM_eq_ok hresolved).1
  rw [List.length_range] at hlength
  rw [← Except.ok.inj h]
  simpa [Grammar.size] using hlength

/-- The definitions of a chain of indirections exist when its first one does. -/
theorem Grammar.Valid.chain_lt {g : Grammar} (hg : g.Valid) {d e : DefId} (hd : d < g.size)
    (he : e ∈ g.chain d) : e < g.size := by
  suffices ∀ fuel d, d < g.size → e ∈ chainFrom g.rule fuel d → e < g.size from this _ d hd he
  intro fuel
  induction fuel with
  | zero =>
      intro d hd he
      obtain rfl : e = d := by simpa [chainFrom] using he
      exact hd
  | succ fuel ih =>
      intro d hd he
      rw [chainFrom] at he
      split at he
      · next target htarget =>
        rcases List.mem_cons.1 he with rfl | he
        · exact hd
        · exact ih target (hg.references d target (Rule.target?_mem htarget)) he
      · obtain rfl : e = d := by simpa using he
        exact hd

/-! ### Strict attempts without faults -/

namespace StrictAttempt

variable {σ τ α β : Type} {I : σ → Prop}

/-- From every state that satisfies `I`, a strict attempt does what an attempt does, without a
fault, and the state satisfies `I` afterwards. -/
def Runs (I : σ → Prop) (c : StrictAttempt σ α) (a : Attempt σ α) : Prop :=
  ∀ s, I s → c s = some (a s) ∧ I (a s).2

namespace Runs

theorem lift {a : Attempt σ α} (h : ∀ s, I s → I (a s).2) : Runs I (StrictAttempt.lift a) a :=
  fun s hs => ⟨rfl, h s hs⟩

theorem pure (x : α) : Runs I (Pure.pure x : StrictAttempt σ α) (Pure.pure x) :=
  fun _ hs => ⟨rfl, hs⟩

theorem reject : Runs I (StrictAttempt.lift (Attempt.reject : Attempt σ α)) Attempt.reject :=
  lift fun _ hs => hs

theorem inspect (f : σ → α) :
    Runs I (StrictAttempt.lift (Attempt.inspect f)) (Attempt.inspect f) :=
  lift fun _ hs => hs

theorem bind {c : StrictAttempt σ α} {a : Attempt σ α} {k : α → StrictAttempt σ β}
    {f : α → Attempt σ β} (h : Runs I c a) (hk : ∀ x, Runs I (k x) (f x)) :
    Runs I (c >>= k) (a >>= f) := by
  intro s hs
  obtain ⟨hc, hs'⟩ := h s hs
  show andThen c k s = some (Attempt.andThen a f s) ∧ I (Attempt.andThen a f s).2
  unfold andThen Attempt.andThen
  rw [hc]
  rcases ha : a s with ⟨x | e, s'⟩
  · exact ⟨rfl, by rwa [ha] at hs'⟩
  · exact hk _ _ (by rwa [ha] at hs')

/-- What must be there is there. -/
theorem demand {x : Option α} {y : α} {k : α → StrictAttempt σ β} {a : Attempt σ β}
    (hx : x = some y) (h : Runs I (k y) a) : Runs I (StrictAttempt.demand x >>= k) a := by
  subst hx
  exact h

theorem orElse {c d : StrictAttempt σ α} {a b : Attempt σ α} (h : Runs I c a) (h' : Runs I d b) :
    Runs I (c.orElse d) (a.orElse b) := by
  intro s hs
  obtain ⟨hc, hs'⟩ := h s hs
  unfold StrictAttempt.orElse Attempt.orElse
  rw [hc]
  rcases ha : a s with ⟨(_ | _ | _) | x, s'⟩
  · exact h' s' (by rwa [ha] at hs')
  all_goals exact ⟨rfl, by rwa [ha] at hs'⟩

theorem firstOf {attempt : α → StrictAttempt σ β} {attempt' : α → Attempt σ β}
    {undo : α → StrictAttempt σ Unit} {undo' : α → Attempt σ Unit} {otherwise : StrictAttempt σ β}
    {otherwise' : Attempt σ β} {as : List α} (h : ∀ a ∈ as, Runs I (attempt a) (attempt' a))
    (hundo : ∀ a, Runs I (undo a) (undo' a)) (hotherwise : Runs I otherwise otherwise') :
    Runs I (StrictAttempt.firstOf attempt undo otherwise as)
      (Attempt.firstOf attempt' undo' otherwise' as) := by
  induction as with
  | nil => exact hotherwise
  | cons a as ih =>
      exact (h a List.mem_cons_self).orElse
        ((hundo a).bind fun _ => ih fun b hb => h b (List.mem_cons_of_mem _ hb))

theorem onFirst {c : StrictAttempt σ α} {a : Attempt σ α} (h : Runs I c a) :
    Runs (fun s : σ × τ => I s.1) (StrictAttempt.onFirst c) (Attempt.onFirst a) := by
  rintro ⟨s, u⟩ hs
  obtain ⟨hc, hs'⟩ := h s hs
  refine ⟨?_, hs'⟩
  show (c s).map _ = _
  rw [hc]
  rfl

theorem ite {p : Prop} [Decidable p] {c d : StrictAttempt σ α} {a b : Attempt σ α}
    (h : p → Runs I c a) (h' : ¬p → Runs I d b) :
    Runs I (if p then c else d) (if p then a else b) := by
  split
  · exact h ‹_›
  · exact h' ‹_›

end Runs

end StrictAttempt

/-! ### What is looked up -/

namespace Strict

open StrictAttempt

variable {g : Grammar} {q : Query} {d item : DefId} {start stop cursor e : Nat}

section Tables

variable (hg : g.Tabled) (hd : d < g.size)
include hg hd

theorem behind_eq : behind g d = some (g.resolve d) := by
  rw [← hg.resolved_size] at hd
  simp [behind, Grammar.resolve, Array.getD, hd]

theorem shape_eq : shape g d = some (g.shape d) := by
  have hresolve : g.resolve d < g.rules.size := hg.resolve_lt d hd
  simp [shape, behind_eq hg hd, Grammar.shape, Grammar.rule, Array.getD, hresolve]

theorem leafMatches_eq (text : Text) : leafMatches g d text = some (g.leafMatches d text) := by
  simp [leafMatches, behind_eq hg hd, hg.resolve_lt d hd, Grammar.leafMatches]

theorem chain_eq : chain g d = some (g.chain d) := by
  have hall : (g.chain d).all g.contains = true := by
    simp only [List.all_eq_true, Grammar.contains, decide_eq_true_eq]
    exact fun e he => hg.chain_lt hd he
  rw [chain, if_pos hall]

end Tables

theorem matcher_eq (hd : d < g.size) : matcher g d = some (g.acceptors.definition d) :=
  if_pos hd

theorem tail_eq {t : Tail} (ht : t.place.1 < g.size) : tail g t = some (g.acceptors.tail t) :=
  if_pos ht

/-! ### Filters -/

/-- Every matcher of a tail is that of a pattern. -/
theorem tail_ofPattern (hg : g.Valid) (t : Tail) :
    ∃ pattern, g.acceptors.tail t = Matcher.ofPattern g.engine pattern := by
  have hnone : ∃ pattern, (emptyMatcher g.engine).get = Matcher.ofPattern g.engine pattern :=
    ⟨_, rfl⟩
  obtain ⟨leaves, hacceptors⟩ := hg.acceptors
  rw [hacceptors]
  simp only [Acceptors.ofRules]
  rw [getD_map_range]
  split
  · rw [Array.getD_eq_getD_getElem?]
    cases hm : (tailMatchers g.engine (fun d => g.rules.getD d .empty)
        (fun d => Template.ofDefinition (fun d => g.rules.getD d .empty) g.rules.size
          g.limits.patternDepth d) t.place.1)[t.place.2]? with
    | none => exact hnone
    | some m =>
        have hmem := Array.mem_of_getElem? hm
        unfold tailMatchers at hmem
        split at hmem
        · obtain ⟨k, -, rfl⟩ := List.mem_map.1 (List.mem_toArray.1 hmem)
          exact ⟨_, rfl⟩
        · obtain rfl : m = matcherOf _ _ := by simpa using hmem
          exact ⟨_, rfl⟩
        · rcases (by simpa using hmem : m = matcherOf _ _ ∨ m = matcherOf _ _) with rfl | rfl
          · exact ⟨_, rfl⟩
          · exact ⟨_, rfl⟩
        · simp at hmem
  · exact hnone

/-- A filter has an answer for each offset of a range. -/
def Covers (f : Filter) (start stop : Nat) : Prop :=
  ∀ e, start ≤ e → e ≤ stop → allows f e = some (f.allows e)

/-- A filter has a flag for each offset of the range for which it is made. -/
theorem covers_follows (hg : q.grammar.Valid) (hrange : IsRange q.text start stop) (t : Tail) :
    Covers (q.follows t start stop) start stop := by
  intro e hle hge
  unfold Query.follows
  split
  · obtain ⟨pattern, htail⟩ := tail_ofPattern hg t
    have hsize : (((q.grammar.acceptors.tail t).suffixStarts (q.slice start stop))).size =
        stop - start + 1 := by
      have hstop := slice?_stop hrange.slice?
      rw [htail]
      refine (size_flagged _ _).trans ?_
      show byteLength (slice q.text start stop) + 1 = _
      omega
    have hlt : e - start <
        ((q.grammar.acceptors.tail t).suffixStarts (q.slice start stop)).size := by
      omega
    simp only [allows, if_pos hle, Filter.allows, Array.getD_eq_getD_getElem?]
    show ((q.grammar.acceptors.tail t).suffixStarts (q.slice start stop))[e - start]? =
      some (((q.grammar.acceptors.tail t).suffixStarts (q.slice start stop))[e - start]?.getD false)
    rw [Array.getElem?_eq_getElem hlt]
    rfl
  · rfl

/-- A step for each element of a list comes upon no fault when none of them does. -/
theorem mapM_eq {α β : Type} {f : α → Option β} {f' : α → β} {as : List α}
    (h : ∀ a ∈ as, f a = some (f' a)) : as.mapM f = some (as.map f') := by
  induction as with
  | nil => rfl
  | cons a as ih =>
      rw [List.mapM_cons, h a List.mem_cons_self, ih fun b hb => h b (List.mem_cons_of_mem _ hb)]
      rfl

/-- The test of a filter has an answer for each candidate. -/
theorem retain_eq {α : Type} {test : α → Option Bool} {p : α → Bool} {as : List α}
    (h : ∀ a ∈ as, test a = some (p a)) : retain test as = some (as.filter p) := by
  induction as with
  | nil => rfl
  | cons a as ih =>
      rw [retain, h a List.mem_cons_self, ih fun b hb => h b (List.mem_cons_of_mem _ hb),
        List.filter_cons]
      rfl

/-! ### Candidates -/

section Candidates

variable (hitem : item < q.grammar.size) (hrange : IsRange q.text cursor stop)
include hitem hrange

theorem allEnds_eq : allEnds q item cursor stop = some (q.allEnds item cursor stop) := by
  rw [allEnds, matcher_eq hitem, hrange.slice?]
  rfl

theorem ends_eq (hg : q.grammar.Tabled) :
    ends q item cursor stop = some (q.ends item cursor stop) := by
  rw [ends, allEnds_eq hitem hrange, shape_eq hg hitem]
  rfl

end Candidates

theorem le_of_mem_allEnds (hg : q.grammar.Valid) (hrange : IsRange q.text cursor stop)
    (h : e ∈ q.allEnds item cursor stop) : cursor ≤ e ∧ e ≤ stop :=
  have hcut := Query.isRange_of_mem_allEnds hg hrange h
  ⟨hcut.1.le, hcut.2.le⟩

/-- Filtering candidates comes upon no fault. -/
theorem retain_covers {f : Filter} {es : List Nat} (hf : Covers f start stop)
    (hes : ∀ e ∈ es, start ≤ e ∧ e ≤ stop) : retain (allows f) es = some (es.filter f.allows) :=
  retain_eq fun e he => hf e (hes e he).1 (hes e he).2

theorem follows_eq {t : Tail} (ht : t.place.1 < q.grammar.size)
    (hrange : IsRange q.text start stop) :
    follows q t start stop = some (q.follows t start stop) := by
  unfold follows Query.follows
  split
  · rw [tail_eq ht, hrange.slice?]
    rfl
  · rfl

/-! ### What a search remembers -/

/-- The failure that is remembered is one of a definition of the grammar. -/
def Known (g : Grammar) (s : SearchState) : Prop :=
  ∀ f, s.furthest = some f → f.definition < g.size

namespace Known

variable {s : SearchState}

theorem initial (g : Grammar) : Known g .start := by
  rintro f ⟨⟩

theorem happen (h : Known g s) (event : Event) : Known g (s.happen event) := h

theorem refuse (h : Known g s) : Known g s.refuse := h

theorem giveUp (h : Known g s) (part : Part) : Known g (s.giveUp part) := h

theorem record (h : Known g s) {f : Failure} (hf : f.definition < g.size) :
    Known g (s.record f) := by
  unfold SearchState.record
  split
  · rintro f' ⟨⟩
    exact hf
  · split
    · rintro f' ⟨⟩
      exact hf
    · exact h

end Known

section Steps

variable {α τ : Type} {f : Failure}

theorem fail_runs (hf : f.definition < g.size) :
    Runs (Known g) (lift (Search.fail f : Search α)) (Search.fail f) :=
  .lift fun _ hs => hs.record hf

theorem fail_runs_first (hf : f.definition < g.size) :
    Runs (fun s : SearchState × τ => Known g s.1)
      (lift (Attempt.onFirst (Search.fail f : Search α))) (Attempt.onFirst (Search.fail f)) :=
  .lift fun _ hs => hs.record hf

theorem note_runs_first (hf : f.definition < g.size) :
    Runs (fun s : SearchState × τ => Known g s.1)
      (lift (Attempt.onFirst (Search.note f))) (Attempt.onFirst (Search.note f)) :=
  .lift fun _ hs => hs.record hf

theorem emit_runs_first (event : Event) :
    Runs (fun s : SearchState × τ => Known g s.1)
      (lift (Attempt.onFirst (Search.emit event))) (Attempt.onFirst (Search.emit event)) :=
  .lift fun _ hs => hs.happen event

end Steps

/-! ### Sequences and choices -/

/-- A strict search for parts does what a search does, on the definitions of the grammar and on
ranges between boundaries. -/
def PartsRun (q : Query) (search : StrictParse) (search' : Parse) : Prop :=
  ∀ d start stop, d < q.grammar.size → IsRange q.text start stop →
    Runs (Known q.grammar) (search d start stop) (search' d start stop)

variable {search : StrictParse} {search' : Parse}

section Composite

variable (hg : q.grammar.Tabled) (hd : d < q.grammar.size)
include hg hd

/-- The induction is on the items that are left; `count - k` of them are. -/
theorem sequenceFrom_runs (hparse : PartsRun q search search') {filters : Array Filter} {count : Nat}
    (hfilters : ∀ k ≤ count, ∃ f, filters[k]? = some f ∧ Covers f start stop)
    {items : List DefId} (hitems : ∀ item ∈ items, item < q.grammar.size) {k : Nat}
    (hk : k + items.length = count) (hstart : start ≤ cursor)
    (hrange : IsRange q.text cursor stop) :
    Runs (fun s => Known q.grammar s.1) (sequenceFrom q search d stop filters items k cursor)
      (q.sequenceFrom search' d stop filters items k cursor) := by
  induction items generalizing k cursor with
  | nil =>
      rw [sequenceFrom, Query.sequenceFrom]
      exact .ite (fun _ => .pure _) fun _ => fail_runs_first hd
  | cons item items ih =>
      have hitem := hitems item List.mem_cons_self
      rw [List.length_cons] at hk
      obtain ⟨f, hf, hcovers⟩ := hfilters (k + 1) (by omega)
      have hretain : retain (allows f) (q.ends item cursor stop) =
          some ((q.ends item cursor stop).filter f.allows) := by
        refine retain_covers hcovers fun e he => ?_
        obtain ⟨hle, hge⟩ :=
          le_of_mem_allEnds hg.toValid hrange (Query.mem_allEnds_of_ends he)
        exact ⟨Nat.le_trans hstart hle, hge⟩
      have hfilter : filters.getD (k + 1) .everywhere = f := by
        rw [Array.getD_eq_getD_getElem?, hf]
        rfl
      rw [sequenceFrom, Query.sequenceFrom, hfilter]
      refine .bind (.inspect _) fun seen => .ite (fun _ => .reject) fun _ => ?_
      refine .demand (ends_eq hitem hrange hg) (.demand hf (.demand hretain ?_))
      refine .ite (fun _ => fail_runs_first hitem) fun _ => ?_
      refine .firstOf (fun e he => ?_) (fun e => emit_runs_first _) (.lift fun _ hs => hs)
      -- a candidate leaves a range between boundaries on either side
      obtain ⟨hleft, hright⟩ := Query.isRange_of_mem_allEnds hg.toValid hrange
        (Query.mem_allEnds_of_ends (List.mem_filter.1 he).1)
      refine .bind (hparse item cursor e hitem hleft).onFirst fun part => ?_
      refine .bind ?_ fun parts => .pure _
      exact ih (fun i hi => hitems i (List.mem_cons_of_mem _ hi)) (by omega)
        (Nat.le_trans hstart hleft.le) hright

theorem sequenceFollows_eq (count : Nat) (hrange : IsRange q.text start stop) :
    sequenceFollows q d count start stop = some (q.sequenceFollows d count start stop) := by
  have hfollows : ∀ k, follows q (.sequence (q.grammar.resolve d) k) start stop =
      some (q.follows (.sequence (q.grammar.resolve d) k) start stop) :=
    fun k => follows_eq (show q.grammar.resolve d < _ from hg.resolve_lt d hd) hrange
  rw [sequenceFollows, behind_eq hg hd]
  simp only [Option.bind_eq_bind, Option.bind_some, mapM_eq fun k _ => hfollows k,
    Query.sequenceFollows]
  simp [← List.toArray_range]

theorem sequence_runs (hparse : PartsRun q search search') {items : List DefId}
    (hitems : ∀ item ∈ items, item < q.grammar.size) (hrange : IsRange q.text start stop) :
    Runs (Known q.grammar) (sequence q search d items start stop)
      (q.sequence search' d items start stop) := by
  intro s hs
  have hfilters : ∀ k ≤ items.length, ∃ f,
      (q.sequenceFollows d items.length start stop)[k]? = some f ∧ Covers f start stop := by
    intro k hk
    refine ⟨_, ?_, covers_follows hg.toValid hrange (.sequence (q.grammar.resolve d) k)⟩
    simp [Query.sequenceFollows, Nat.lt_succ_of_le hk]
  obtain ⟨hrun, hknown⟩ := sequenceFrom_runs hg hd hparse hfilters hitems (Nat.zero_add _)
    (Nat.le_refl start) hrange (s, ∅) hs
  rw [sequence, sequenceFollows_eq hg hd _ hrange]
  simp only [Option.bind_eq_bind, Option.bind_some, hrun, Query.sequence]
  generalize q.sequenceFrom search' d stop (q.sequenceFollows d items.length start stop) items 0
    start (s, ∅) = outcome at hknown ⊢
  obtain ⟨_ | _, s'⟩ := outcome
  · exact ⟨rfl, hknown⟩
  · exact ⟨rfl, hknown⟩

end Composite

theorem isHopeless_eq (hitem : item < q.grammar.size) (hrange : IsRange q.text start stop) :
    isHopeless q item start stop =
      some (q.prune && !q.grammar.feasible item (q.slice start stop)) := by
  unfold isHopeless
  cases hprune : q.prune
  · rfl
  · simp only [if_true, matcher_eq hitem, hrange.slice?]
    rfl

theorem choice_runs (hparse : PartsRun q search search') (hd : d < q.grammar.size)
    {alternatives : List DefId} (halternatives : ∀ item ∈ alternatives, item < q.grammar.size)
    (hrange : IsRange q.text start stop) {index : Nat} :
    Runs (Known q.grammar) (choice q search d start stop alternatives index)
      (q.choice search' d start stop alternatives index) := by
  induction alternatives generalizing index with
  | nil => exact fail_runs hd
  | cons alternative alternatives ih =>
      have hitem := halternatives alternative List.mem_cons_self
      rw [choice, Query.choice]
      refine .orElse ?_ (ih fun i hi => halternatives i (List.mem_cons_of_mem _ hi))
      refine .demand (isHopeless_eq hitem hrange) (.ite (fun _ => .reject) fun _ => ?_)
      exact .bind (hparse alternative start stop hitem hrange) fun inner => .pure _

/-! ### Loops -/

theorem elementFollows_eq (p : LoopPlan) (trail : List Split) :
    elementFollows p trail = some (p.follows trail) := by
  unfold elementFollows LoopPlan.follows
  split
  · next h =>
    have hsome : p.separator.isSome = true := (Bool.and_eq_true_iff.1 h).1
    rw [if_pos hsome]
  · rfl

section Loops

variable {p : LoopPlan} {trail : List Split}

theorem loopEnds_eq (hg : q.grammar.Tabled) (helement : p.element trail < q.grammar.size)
    (hcovers : Covers (p.follows trail) p.start p.stop) (hstart : p.start ≤ cursor)
    (hrange : IsRange q.text cursor p.stop) :
    loopEnds q p trail cursor = some (q.loopEnds p trail cursor) := by
  have hordered : elementEnds q p trail cursor =
      some (if p.expectsSeparator trail then q.ends (p.element trail) cursor p.stop
        else p.itemOrder cursor (q.allEnds (p.element trail) cursor p.stop)) := by
    unfold elementEnds
    split
    · exact ends_eq helement hrange hg
    · rw [allEnds_eq helement hrange]
      rfl
  rw [loopEnds, hordered, elementFollows_eq]
  refine retain_covers hcovers fun e he => ?_
  have hmem : e ∈ q.allEnds (p.element trail) cursor p.stop := by
    replace he := (List.mem_filter.1 he).1
    split at he
    · exact Query.mem_allEnds_of_ends he
    · exact LoopPlan.mem_of_itemOrder he
  obtain ⟨hle, hge⟩ := le_of_mem_allEnds hg.toValid hrange hmem
  exact ⟨Nat.le_trans hstart hle, hge⟩

theorem loopFailure_lt (hd : p.definition < q.grammar.size)
    (helement : p.element trail < q.grammar.size) :
    (Query.loopFailure p trail cursor).definition < q.grammar.size := by
  unfold Query.loopFailure
  split
  · exact hd
  · exact helement

/-- The induction is on the fuel; every element cuts the range that is left. -/
theorem extend_runs (hg : q.grammar.Tabled) (hparse : PartsRun q search search')
    (hd : p.definition < q.grammar.size)
    (helement : ∀ trail, p.element trail < q.grammar.size)
    (hcovers : ∀ trail, Covers (p.follows trail) p.start p.stop) {fuel : Nat}
    (hstart : p.start ≤ cursor) (hrange : IsRange q.text cursor p.stop) :
    Runs (fun s => Known q.grammar s.1) (extend q search p fuel trail cursor)
      (q.extend search' p fuel trail cursor) := by
  induction fuel generalizing trail cursor with
  | zero => exact .lift fun _ hs => hs
  | succ fuel ih =>
      rw [extend, Query.extend]
      refine .ite (fun _ => .pure _) fun _ => ?_
      refine .bind (.inspect _) fun seen => .ite (fun _ => .reject) fun _ => ?_
      refine .ite (fun _ => ?_) fun _ => ?_
      · refine .ite (fun _ => ?_) fun _ => .lift fun _ hs => hs
        exact .bind (note_runs_first hd) fun _ => .lift fun _ hs => hs
      · refine .demand (loopEnds_eq hg (helement trail) (hcovers trail) hstart hrange) ?_
        have hfirst : ∀ e ∈ q.loopEnds p trail cursor,
            Runs (fun s => Known q.grammar s.1)
              (do let part ← onFirst (search (p.element trail) cursor e)
                  extend q search p fuel (part :: trail) e)
              (do let part ← Attempt.onFirst (search' (p.element trail) cursor e)
                  q.extend search' p fuel (part :: trail) e) := by
          intro e he
          obtain ⟨hleft, hright⟩ :=
            Query.isRange_of_mem_allEnds hg.toValid hrange (Query.mem_allEnds_of_loopEnds he)
          refine .bind (hparse _ cursor e (helement trail) hleft).onFirst fun part => ?_
          exact ih (Nat.le_trans hstart hleft.le) hright
        have htry := Runs.firstOf hfirst (fun e => emit_runs_first (.backtrack p.definition e))
          (Runs.lift fun s (hs : Known q.grammar s.1) => hs : Runs _
            (lift (do Attempt.update fun s => (s.1, s.2.insert (p.point trail cursor))
                      Attempt.reject)) _)
        refine .ite (fun _ => ?_) fun _ => htry
        exact .bind (note_runs_first (loopFailure_lt hd (helement trail))) fun _ => htry

theorem loop_runs (hg : q.grammar.Tabled) (hparse : PartsRun q search search')
    (hd : p.definition < q.grammar.size)
    (helement : ∀ trail, p.element trail < q.grammar.size)
    (hcovers : ∀ trail, Covers (p.follows trail) p.start p.stop)
    (hrange : IsRange q.text p.start p.stop) :
    Runs (Known q.grammar) (loop q search p) (q.loop search' p) := by
  intro s hs
  obtain ⟨hrun, hknown⟩ := extend_runs hg hparse hd helement hcovers (Nat.le_refl _) hrange
    (s, ∅) hs
  rw [loop, hrun]
  simp only [Option.bind_eq_bind, Option.bind_some, Query.loop]
  generalize q.extend search' p p.fuel [] p.start (s, ∅) = outcome at hknown ⊢
  obtain ⟨_ | _, s'⟩ := outcome
  · exact ⟨rfl, hknown⟩
  · exact ⟨rfl, hknown⟩

end Loops

theorem loopPlan_eq (hg : q.grammar.Tabled) (hd : d < q.grammar.size)
    (hrange : IsRange q.text start stop) (separator : Option DefId) (repetition : Repetition) :
    loopPlan q d item separator repetition start stop =
      some (q.loopPlan d item separator repetition start stop) := by
  have hlt : q.grammar.resolve d < q.grammar.size := hg.resolve_lt d hd
  have hitem : (if separator.isSome then Tail.afterItem (q.grammar.resolve d)
      else .loop (q.grammar.resolve d)).place.1 < q.grammar.size := by
    split <;> exact hlt
  have hseparator : (Tail.afterSeparator (q.grammar.resolve d)).place.1 < q.grammar.size := hlt
  rw [loopPlan, behind_eq hg hd]
  simp only [Option.bind_eq_bind, Option.bind_some, follows_eq hitem hrange,
    follows_eq hseparator hrange, Query.loopPlan]
  cases separator <;> rfl

/-- The filters of a loop cover its range. -/
theorem covers_loopPlan (hg : q.grammar.Valid) (hrange : IsRange q.text start stop)
    (separator : Option DefId) (repetition : Repetition) (trail : List Split) :
    Covers ((q.loopPlan d item separator repetition start stop).follows trail) start stop := by
  unfold LoopPlan.follows
  split
  · exact covers_follows hg hrange _
  · simp only [Query.loopPlan]
    split
    · exact covers_follows hg hrange _
    · exact covers_follows hg hrange _

/-! ### Parts -/

theorem leaf_runs (hd : d < g.size) (fits : Bool) :
    Runs (Known g) (lift (Query.leaf d start stop fits)) (Query.leaf d start stop fits) := by
  unfold Query.leaf
  split
  · exact .lift fun _ hs => hs
  · exact fail_runs hd

/-- Every structural rule is searched without a fault, and no definition stands for another one
behind all indirections. -/
theorem parseShape_runs (hg : q.grammar.Tabled) (hparse : PartsRun q search search')
    (hd : d < q.grammar.size) (hrange : IsRange q.text start stop) :
    Runs (Known q.grammar) (parseShape q search d start stop)
      (q.parseShape search' d start stop) := by
  have hreferences : ∀ e ∈ (q.grammar.shape d).references, e < q.grammar.size :=
    fun e he => hg.references_shape he
  have hstructural := hg.target?_shape d
  have hshape := shape_eq hg hd
  rw [parseShape, Query.parseShape]
  refine .demand hrange.slice? (.demand hshape ?_)
  cases hrule : q.grammar.shape d with
  | literal expected => exact leaf_runs hd _
  | pattern source => exact .demand (leafMatches_eq hg hd _) (leaf_runs hd _)
  | empty => exact leaf_runs hd _
  | sequence items =>
      rw [hrule] at hreferences
      exact sequence_runs hg hd hparse hreferences hrange
  | choice alternatives =>
      rw [hrule] at hreferences
      exact choice_runs hparse hd hreferences hrange
  | optional item quantifier =>
      have hitem : item < q.grammar.size := hreferences item (by simp [hrule, Rule.references])
      refine .ite (fun _ => .pure _) fun _ => ?_
      exact .bind (hparse item start stop hitem hrange) fun inner => .pure _
  | loop item repetition =>
      have hitem : item < q.grammar.size := hreferences item (by simp [hrule, Rule.references])
      refine .demand (loopPlan_eq hg hd hrange none repetition) ?_
      exact loop_runs hg hparse hd (fun trail => hitem)
        (covers_loopPlan hg.toValid hrange none repetition) hrange
  | separated item separator default repetition =>
      have hitem : item < q.grammar.size := hreferences item (by simp [hrule, Rule.references])
      have hseparator : separator < q.grammar.size :=
        hreferences separator (by simp [hrule, Rule.references])
      refine .demand (loopPlan_eq hg hd hrange (some separator) repetition) ?_
      refine loop_runs hg hparse hd (fun trail => ?_)
        (covers_loopPlan hg.toValid hrange (some separator) repetition) hrange
      show (if _ then separator else item) < _
      split
      · exact hseparator
      · exact hitem
  | «alias» target name => simp [hrule, Rule.target?] at hstructural
  | forward target => simp [hrule, Rule.target?] at hstructural
  | withDefault content target => simp [hrule, Rule.target?] at hstructural

/-- **The search for a split of a part comes upon no fault.** -/
theorem parse_runs (hg : q.grammar.Tabled) (fuel : Nat) (active : List Part) :
    PartsRun q (parse q fuel active) (q.parse fuel active) := by
  induction fuel generalizing active with
  | zero => exact fun d start stop hd hrange => .lift fun _ hs => hs
  | succ fuel ih =>
      intro d start stop hd hrange s hs
      obtain ⟨hrun, hknown⟩ := parseShape_runs hg (ih (⟨q.grammar.resolve d, start, stop⟩ :: active))
        hd hrange (s.happen (.enter d start stop)) (hs.happen _)
      rw [parse, behind_eq hg hd]
      simp only [Query.parse, Option.bind_eq_bind, Option.bind_some, hrange.slice?, hrun]
      split
      · exact ⟨rfl, hs⟩
      split
      · exact ⟨rfl, hs.refuse⟩
      split
      · exact ⟨rfl, hs⟩
      generalize q.parseShape (q.parse fuel (⟨q.grammar.resolve d, start, stop⟩ :: active)) d start
        stop (s.happen (.enter d start stop)) = outcome at hknown ⊢
      obtain ⟨e | _, s'⟩ := outcome
      · dsimp only
        split
        · exact ⟨rfl, (hknown.happen _).giveUp _⟩
        · exact ⟨rfl, hknown.happen _⟩
      · exact ⟨rfl, hknown.happen _⟩

/-! ### Whole texts -/

theorem run_eq (hg : q.grammar.Tabled) (hd : d < q.grammar.size) :
    run q d = some (q.run d) ∧ Known q.grammar (q.run d).2 :=
  parse_runs hg _ [] d 0 (byteLength q.text) hd (.whole q.text) .start (.initial _)

theorem report_eq (hg : q.grammar.Tabled) (hd : d < q.grammar.size) {s : SearchState}
    (hs : Known q.grammar s) : report q d s = some (q.report d s) := by
  have hlt : (s.furthest.getD ⟨d, 0, byteLength q.text, .mismatch⟩).definition <
      q.grammar.size := by
    cases hf : s.furthest with
    | none => exact hd
    | some f => exact hs f hf
  rw [report, if_neg fun h => absurd h.2 (Nat.not_le.2 hlt), chain_eq hg hlt]
  rfl

theorem resolveFully_eq (hg : g.Tabled) (hd : d < g.size) (text : Text) (before : List Event) :
    resolveFully g d text before = some (Tessera.resolveFully g d text before) := by
  obtain ⟨hrun, hknown⟩ := run_eq (q := ⟨g, text, false⟩) hg hd
  rw [resolveFully, Tessera.resolveFully]
  simp only [hrun, Option.bind_eq_bind, Option.bind_some]
  rcases heq : Query.run ⟨g, text, false⟩ d with ⟨(_ | _ | _) | split, s⟩
  · rw [heq] at hknown
    simp only [report_eq (q := ⟨g, text, false⟩) hg hd hknown]
    rfl
  all_goals rfl

/-- **The search for the split of a whole text comes upon no fault.** -/
theorem resolve_eq (hg : g.Tabled) (hd : d < g.size) (text : Text) :
    resolve g d text = some (Tessera.resolve g d text) := by
  obtain ⟨hrun, -⟩ := run_eq (q := ⟨g, text, true⟩) hg hd
  rw [resolve, Tessera.resolve, matcher_eq hd]
  simp only [hrun, Option.bind_eq_bind, Option.bind_some, resolveFully_eq hg hd]
  show (if g.feasible d text = true then _ else _) = _
  split
  · rcases heq : Query.run ⟨g, text, true⟩ d with ⟨(_ | _ | _) | split, s⟩ <;> rfl
  · rfl

end Strict

end Tessera
