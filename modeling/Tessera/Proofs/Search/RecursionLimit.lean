/-
**The recursion limit is a pure cut-off.**

A recursion limit stops a search that nests too deeply, and does nothing else.  Two searches that
differ in their limits go through the same states until the smaller limit is reached, and then the
one with the smaller limit stops altogether: no candidate is given up because of it, and nothing is
remembered about the part at which the search stopped.

A search is never inside of more parts than there are, so a limit that leaves room for all of them
is never reached.

Main definitions:

* `Tessera.Draft.withLimit`, `Tessera.Grammar.withLimit` — the same rules with another limit;
* `Tessera.Limits.AtMost` — one limit is at most another one, where none is the largest;
* `Tessera.Attempt.CutShort` — an attempt is another one, cut short by the limit.

Main results:

* `Tessera.Query.parse_cutShort` — **a smaller limit cuts a search short**;
* `Tessera.Query.parse_ample` — a limit that leaves room for all parts is as good as none;
* `Tessera.resolve_withLimit` — **under a smaller limit a text has the same outcome, unless the limit
  is exceeded, and a limit that leaves room for all parts is not.**
-/

import Tessera.Proofs.Search.Pruning
import Tessera.Proofs.Search.Trails

set_option autoImplicit false

namespace Tessera

/-! ### Attempts that are cut short -/

namespace Attempt

variable {σ τ α β : Type}

/-- From every state the attempt is stopped by the recursion limit, or it does what the other one
does. -/
def CutShort (a b : Attempt σ α) : Prop := ∀ s, (a s).1 = .error .limitExceeded ∨ a s = b s

namespace CutShort

variable {a b : Attempt σ α}

theorem refl (a : Attempt σ α) : CutShort a a := fun _ => .inr rfl

theorem bind {f f' : α → Attempt σ β} (h : CutShort a b) (hf : ∀ x, CutShort (f x) (f' x)) :
    CutShort (a >>= f) (b >>= f') := by
  intro s
  rw [bind_apply, bind_apply]
  rcases h s with hstop | hsame
  · obtain ⟨s', hr⟩ : ∃ s', a s = (.error .limitExceeded, s') := ⟨_, Prod.ext hstop rfl⟩
    exact .inl (by rw [hr])
  · rw [← hsame]
    rcases a s with ⟨e | x, s'⟩
    · exact .inr rfl
    · exact hf x s'

theorem orElse {a' b' : Attempt σ α} (h : CutShort a b) (h' : CutShort a' b') :
    CutShort (Attempt.orElse a a') (Attempt.orElse b b') := by
  intro s
  rw [Attempt.orElse, Attempt.orElse]
  rcases h s with hstop | hsame
  · -- exceeding the limit is not a rejection, so no other candidate is tried
    obtain ⟨s', hr⟩ : ∃ s', a s = (.error .limitExceeded, s') := ⟨_, Prod.ext hstop rfl⟩
    exact .inl (by rw [hr])
  · rw [← hsame]
    rcases a s with ⟨(_ | _ | _) | x, s'⟩
    · exact h' s'
    · exact .inr rfl
    · exact .inr rfl
    · exact .inr rfl

theorem firstOf {attempt attempt' : α → Attempt σ β} (h : ∀ a, CutShort (attempt a) (attempt' a))
    (undo : α → Attempt σ Unit) (otherwise : Attempt σ β) (as : List α) :
    CutShort (Attempt.firstOf attempt undo otherwise as)
      (Attempt.firstOf attempt' undo otherwise as) := by
  induction as with
  | nil => exact .refl _
  | cons a as ih => exact (h a).orElse ((CutShort.refl (undo a)).bind fun _ => ih)

theorem onFirst (h : CutShort a b) :
    CutShort (Attempt.onFirst a : Attempt (σ × τ) α) (Attempt.onFirst b) := by
  intro s
  exact (h s.1).imp id fun hsame => by rw [Attempt.onFirst, Attempt.onFirst, hsame]

end CutShort

end Attempt

/-! ### Limits -/

/-- One limit is at most another one; no limit is the largest. -/
def Limits.AtMost (limit limit' : Option Nat) : Prop := ∀ l' ∈ limit', ∃ l ∈ limit, l ≤ l'

/-- The grammar with another recursion limit. -/
def Grammar.withLimit (g : Grammar) (limit : Option Nat) : Grammar :=
  { g with limits := { g.limits with recursionLimit := limit } }

theorem Grammar.Valid.withLimit {g : Grammar} (hg : g.Valid) (limit : Option Nat) :
    (g.withLimit limit).Valid where
  references := hg.references
  resolve_self := hg.resolve_self
  resolve_target := hg.resolve_target
  chainEnd := hg.chainEnd
  target?_resolve := hg.target?_resolve
  resolve_lt := hg.resolve_lt
  repetition := hg.repetition
  pattern := hg.pattern
  acceptors := hg.acceptors

/-- The draft with another recursion limit. -/
def Draft.withLimit (draft : Draft) (limit : Option Nat) : Draft :=
  { draft with limits := { draft.limits with recursionLimit := limit } }

/-- The grammars of one draft with two limits differ in nothing else: no matcher depends on the
limit. -/
theorem Draft.build_withLimit {draft : Draft} {limit limit' : Option Nat} {g g' : Grammar}
    (h : (draft.withLimit limit).build = .ok g) (h' : (draft.withLimit limit').build = .ok g') :
    g.limits.recursionLimit = limit ∧ g' = g.withLimit limit' := by
  obtain ⟨rules, hrules, h⟩ := Except.bind_eq_ok.1 h
  obtain ⟨rules', hrules', h'⟩ := Except.bind_eq_ok.1 h'
  obtain rfl := Except.ok.inj (hrules.symm.trans hrules')
  obtain ⟨-, -, h⟩ := Except.bind_eq_ok.1 h
  obtain ⟨leaves, hleaves, h⟩ := Except.bind_eq_ok.1 h
  obtain ⟨resolved, hresolved, h⟩ := Except.bind_eq_ok.1 h
  obtain ⟨-, -, h⟩ := Except.bind_eq_ok.1 h
  obtain ⟨-, -, h⟩ := Except.bind_eq_ok.1 h
  obtain ⟨-, -, h'⟩ := Except.bind_eq_ok.1 h'
  obtain ⟨leaves', hleaves', h'⟩ := Except.bind_eq_ok.1 h'
  obtain ⟨resolved', hresolved', h'⟩ := Except.bind_eq_ok.1 h'
  obtain ⟨-, -, h'⟩ := Except.bind_eq_ok.1 h'
  obtain ⟨-, -, h'⟩ := Except.bind_eq_ok.1 h'
  obtain rfl := Except.ok.inj (hleaves.symm.trans hleaves')
  obtain rfl := Except.ok.inj (hresolved.symm.trans hresolved')
  obtain rfl := Except.ok.inj h
  obtain rfl := Except.ok.inj h'
  exact ⟨rfl, rfl⟩

namespace Query

open Attempt

variable {q : Query}

/-- The search in the grammar with another recursion limit. -/
def withLimit (q : Query) (limit : Option Nat) : Query :=
  { q with grammar := q.grammar.withLimit limit }

/-! ### Searches that are cut short -/

/-- Every search for a part is cut short. -/
def CutParts (parse parse' : Parse) : Prop :=
  ∀ d start stop, CutShort (parse d start stop) (parse' d start stop)

section Rules

variable {parse parse' : Parse} (h : CutParts parse parse')
include h

theorem sequenceFrom_cutShort {d : DefId} {stop : Nat} {follows : Array Filter}
    {items : List DefId} {k cursor : Nat} :
    CutShort (q.sequenceFrom parse d stop follows items k cursor)
      (q.sequenceFrom parse' d stop follows items k cursor) := by
  induction items generalizing k cursor with
  | nil => exact .refl _
  | cons item items ih =>
      rw [sequenceFrom, sequenceFrom]
      refine (CutShort.refl _).bind fun dead => ?_
      split
      · exact .refl _
      dsimp only
      split
      · exact .refl _
      refine CutShort.firstOf (fun e => ?_) _ _ _
      exact (h item cursor e).onFirst.bind fun part => ih.bind fun parts => .refl _

theorem sequence_cutShort {d : DefId} {items : List DefId} {start stop : Nat} :
    CutShort (q.sequence parse d items start stop) (q.sequence parse' d items start stop) := by
  intro s
  rw [sequence, sequence]
  have hfrom : CutShort
      (q.sequenceFrom parse d stop (q.sequenceFollows d items.length start stop) items 0 start)
      (q.sequenceFrom parse' d stop (q.sequenceFollows d items.length start stop) items 0 start) :=
    sequenceFrom_cutShort h
  rcases hfrom (s, ∅) with hstop | hsame
  · left
    split
    · next hr => rw [hr] at hstop; cases hstop
    · next hr => rw [hr] at hstop; exact congrArg Except.error (Except.error.inj hstop)
  · exact .inr (by rw [hsame])

theorem choice_cutShort {d : DefId} {start stop : Nat} {alternatives : List DefId} {index : Nat} :
    CutShort (q.choice parse d start stop alternatives index)
      (q.choice parse' d start stop alternatives index) := by
  induction alternatives generalizing index with
  | nil => exact .refl _
  | cons a as ih =>
      rw [choice, choice]
      refine CutShort.orElse ?_ ih
      split
      · exact .refl _
      · exact (h a start stop).bind fun inner => .refl _

theorem extend_cutShort {p : LoopPlan} {fuel : Nat} {trail : List Split} {cursor : Nat} :
    CutShort (q.extend parse p fuel trail cursor) (q.extend parse' p fuel trail cursor) := by
  induction fuel generalizing trail cursor with
  | zero => exact .refl _
  | succ fuel ih =>
      rw [extend, extend]
      split
      · exact .refl _
      refine (CutShort.refl _).bind fun dead => ?_
      split
      · exact .refl _
      split
      · exact .refl _
      have hnext : ∀ e, CutShort
          (Attempt.onFirst (parse (p.element trail) cursor e) >>= fun part =>
            q.extend parse p fuel (part :: trail) e : Attempt LoopState (List Split))
          (Attempt.onFirst (parse' (p.element trail) cursor e) >>= fun part =>
            q.extend parse' p fuel (part :: trail) e) :=
        fun e => (h (p.element trail) cursor e).onFirst.bind fun part => ih
      dsimp only
      split
      · exact (CutShort.refl _).bind fun _ => CutShort.firstOf hnext _ _ _
      · exact CutShort.firstOf hnext _ _ _

theorem loop_cutShort {p : LoopPlan} : CutShort (q.loop parse p) (q.loop parse' p) := by
  intro s
  rw [loop, loop]
  have hextend : CutShort (q.extend parse p p.fuel [] p.start)
      (q.extend parse' p p.fuel [] p.start) := extend_cutShort h
  rcases hextend (s, ∅) with hstop | hsame
  · left
    split
    · next hr => rw [hr] at hstop; cases hstop
    · next hr => rw [hr] at hstop; exact congrArg Except.error (Except.error.inj hstop)
  · exact .inr (by rw [hsame])

theorem parseShape_cutShort {d : DefId} {start stop : Nat} :
    CutShort (q.parseShape parse d start stop) (q.parseShape parse' d start stop) := by
  rw [parseShape, parseShape]
  cases q.grammar.shape d with
  | sequence items => exact sequence_cutShort h
  | choice alternatives => exact choice_cutShort h
  | optional item quantifier =>
      dsimp only
      split
      · exact .refl _
      · exact (h item start stop).bind fun inner => .refl _
  | loop item repetition => exact loop_cutShort h
  | separated item separator default repetition => exact loop_cutShort h
  | literal text => exact .refl _
  | pattern source => exact .refl _
  | empty => exact .refl _
  | «alias» target name => exact .refl _
  | forward target => exact .refl _
  | withDefault content target => exact .refl _

end Rules

section Unlimited

variable (q : Query) (limit : Option Nat) (parse : Parse)

theorem sequenceFrom_withLimit (d : DefId) (stop : Nat) (follows : Array Filter)
    (items : List DefId) (k cursor : Nat) :
    (q.withLimit limit).sequenceFrom parse d stop follows items k cursor =
      q.sequenceFrom parse d stop follows items k cursor := by
  induction items generalizing k cursor with
  | nil => rfl
  | cons item items ih =>
      rw [sequenceFrom, sequenceFrom]
      simp only [ih]
      rfl

theorem choice_withLimit (d : DefId) (start stop : Nat) (alternatives : List DefId) (index : Nat) :
    (q.withLimit limit).choice parse d start stop alternatives index =
      q.choice parse d start stop alternatives index := by
  induction alternatives generalizing index with
  | nil => rfl
  | cons a as ih =>
      rw [choice, choice]
      simp only [ih]
      rfl

theorem extend_withLimit (p : LoopPlan) (fuel : Nat) (trail : List Split) (cursor : Nat) :
    (q.withLimit limit).extend parse p fuel trail cursor =
      q.extend parse p fuel trail cursor := by
  induction fuel generalizing trail cursor with
  | zero => rfl
  | succ fuel ih =>
      rw [extend, extend]
      simp only [ih]
      rfl

/-- The rules themselves do not look at the limit. -/
theorem parseShape_withLimit (d : DefId) (start stop : Nat) :
    (q.withLimit limit).parseShape parse d start stop = q.parseShape parse d start stop := by
  have hshape : (q.withLimit limit).grammar.shape d = q.grammar.shape d := rfl
  rw [parseShape, parseShape, hshape]
  cases q.grammar.shape d with
  | sequence items =>
      funext s
      dsimp only
      rw [sequence, sequence, sequenceFrom_withLimit]
      rfl
  | choice alternatives => exact choice_withLimit q limit parse d start stop alternatives 0
  | loop item repetition =>
      funext s
      dsimp only
      rw [loop, loop, extend_withLimit]
      rfl
  | separated item separator default repetition =>
      funext s
      dsimp only
      rw [loop, loop, extend_withLimit]
      rfl
  | _ => rfl

end Unlimited

/-- **A smaller limit cuts a search short.**  As long as the smaller limit is not reached, neither is
the larger one, so both searches do the same. -/
theorem parse_cutShort {limit limit' : Option Nat} (hle : Limits.AtMost limit limit') (fuel : Nat)
    (active : List Part) :
    CutParts ((q.withLimit limit).parse fuel active) ((q.withLimit limit').parse fuel active) := by
  induction fuel generalizing active with
  | zero => exact fun _ _ _ => .refl _
  | succ fuel ih =>
      intro d start stop s
      have hresolve : ∀ l, (q.withLimit l).grammar.resolve d = q.grammar.resolve d := fun _ => rfl
      have hlimits : ∀ l, (q.withLimit l).grammar.limits.recursionLimit = l := fun _ => rfl
      simp only [parse, hresolve, hlimits, parseShape_withLimit]
      split
      · exact .inr rfl
      split
      · exact .inr rfl
      cases hreached : limit.any fun l => decide (l ≤ active.length) with
      | true => exact .inl rfl
      | false =>
      -- the larger limit is not reached either
      have hreached' : (limit'.any fun l => decide (l ≤ active.length)) = false := by
        rw [Option.any_eq_false]
        intro l' hl'
        obtain ⟨l, hl, hll'⟩ := hle l' hl'
        have hroom := (Option.any_eq_false _ _).1 hreached l hl
        simp only [decide_eq_false_iff_not] at hroom ⊢
        omega
      rw [hreached']
      simp only [Bool.false_eq_true, if_false]
      have hshape : CutShort
          (q.parseShape ((q.withLimit limit).parse fuel (⟨q.grammar.resolve d, start, stop⟩ :: active))
            d start stop)
          (q.parseShape ((q.withLimit limit').parse fuel (⟨q.grammar.resolve d, start, stop⟩ :: active))
            d start stop) :=
        parseShape_cutShort (ih (⟨q.grammar.resolve d, start, stop⟩ :: active))
      rcases hshape (s.happen (.enter d start stop)) with hstop | hsame
      · -- the part at which the search stops is not remembered as a failure
        left
        split
        · next hr => rw [hr] at hstop; cases hstop
        · next e s' hr =>
          rw [hr] at hstop
          obtain rfl : e = .limitExceeded := Except.error.inj hstop
          rfl
      · exact .inr (by rw [hsame])

/-! ### Limits that are never reached -/

/-- **A limit that leaves room for all parts is as good as none.**  Parts inside of which a search is
are different from each other, so together with one more they are not more than all parts. -/
theorem parse_ample (hg : q.grammar.Valid)
    (hlimit : ∀ l ∈ q.grammar.limits.recursionLimit,
      partCount q.grammar.size (byteLength q.text) ≤ l)
    {fuel : Nat} {active : List Part} (hnodup : active.Nodup)
    (hactive : ∀ part ∈ active, part ∈ allParts q.grammar.size (byteLength q.text))
    (hfuel : partCount q.grammar.size (byteLength q.text) < fuel + active.length) :
    q.AgreeParts (q.parse fuel active) ((q.withLimit none).parse fuel active) := by
  induction fuel generalizing active with
  | zero => exact fun _ _ _ _ _ => rfl
  | succ fuel ih =>
      intro d start stop hd hrange
      have hresolve : (q.withLimit none).grammar.resolve d = q.grammar.resolve d := rfl
      have hunlimited : (q.withLimit none).grammar.limits.recursionLimit = none := rfl
      funext s
      simp only [parse, hresolve, hunlimited, Option.any_none, parseShape_withLimit]
      cases hfresh : active.contains (⟨q.grammar.resolve d, start, stop⟩ : Part) with
      | true => simp only [if_true]
      | false =>
      have hpart : (⟨q.grammar.resolve d, start, stop⟩ : Part) ∈
          allParts q.grammar.size (byteLength q.text) :=
        mem_allParts.2 ⟨hg.resolve_lt d hd, hrange.le, hrange.right.le⟩
      have hfresh : (⟨q.grammar.resolve d, start, stop⟩ : Part) ∉ active := by
        simpa using hfresh
      -- the new part is none of those that are active, so it finds room
      have hnodup' := List.nodup_cons.2 ⟨hfresh, hnodup⟩
      have hactive' := List.forall_mem_cons.2 ⟨hpart, hactive⟩
      have hlength := length_le_partCount hnodup' hactive'
      rw [List.length_cons] at hlength
      have hroom : (q.grammar.limits.recursionLimit.any fun l => decide (l ≤ active.length)) =
          false := by
        rw [Option.any_eq_false]
        intro l hl
        have := hlimit l hl
        simp only [decide_eq_false_iff_not]
        omega
      have hrest : partCount q.grammar.size (byteLength q.text) <
          fuel + (⟨q.grammar.resolve d, start, stop⟩ :: active).length := by
        rw [List.length_cons]
        omega
      have hguide : q.Guide (fun _ _ => True) (fun _ => True) :=
        guide_trivial trivial fun _ => trivial
      rw [hroom, parseShape_congr hg (parse_guided hg hguide hnodup' hactive' hrest)
        (ih hnodup' hactive' hrest) hrange]

/-- A limit that leaves room for all parts is not exceeded. -/
theorem run_ample (hg : q.grammar.Valid)
    (hlimit : ∀ l ∈ q.grammar.limits.recursionLimit,
      partCount q.grammar.size (byteLength q.text) ≤ l)
    {d : DefId} (hd : d < q.grammar.size) :
    Settled (fun s => s.span = ⟨0, byteLength q.text⟩) (q.run d).1 := by
  have hsame : q.run d = (q.withLimit none).run d :=
    congrFun (parse_ample hg hlimit List.nodup_nil (by simp) (by simp) d 0 _ hd
      (IsRange.whole q.text)) _
  rw [hsame]
  exact run_settles (hg.withLimit none) rfl hd

/-- A search of a whole text is cut short by a smaller limit. -/
theorem run_cutShort {limit limit' : Option Nat} (hle : Limits.AtMost limit limit') (d : DefId) :
    ((q.withLimit limit).run d).1 = .error .limitExceeded ∨
      (q.withLimit limit).run d = (q.withLimit limit').run d :=
  parse_cutShort hle _ [] d 0 _ _

end Query

/-! ### Whole texts -/

/-- What is reported about a failure does not mention the limit. -/
theorem resolveFully_cutShort {g : Grammar} {limit limit' : Option Nat}
    (hle : Limits.AtMost limit limit') (d : DefId) (text : Text) (before : List Event) :
    (resolveFully (g.withLimit limit) d text before).result = .error .limitExceeded ∨
      resolveFully (g.withLimit limit) d text before =
        resolveFully (g.withLimit limit') d text before := by
  have hrun := Query.run_cutShort (q := ⟨g, text, false⟩) hle d
  simp only [Query.withLimit] at hrun
  rw [resolveFully, resolveFully]
  rcases hrun with hstop | hsame
  · left
    split
    · next hr => rw [hr] at hstop; cases hstop
    · next hr => rw [hr] at hstop; cases hstop
    · rfl
  · rw [hsame]
    exact .inr rfl

theorem resolve_cutShort {g : Grammar} {limit limit' : Option Nat}
    (hle : Limits.AtMost limit limit') (d : DefId) (text : Text) :
    (resolve (g.withLimit limit) d text).result = .error .limitExceeded ∨
      resolve (g.withLimit limit) d text = resolve (g.withLimit limit') d text := by
  have hrun := Query.run_cutShort (q := ⟨g, text, true⟩) hle d
  simp only [Query.withLimit] at hrun
  have hfeasible : ∀ l, (g.withLimit l).feasible d text = g.feasible d text := fun _ => rfl
  rw [resolve, resolve, hfeasible, hfeasible]
  split
  · rcases hrun with hstop | hsame
    · left
      split
      · next hr => rw [hr] at hstop; cases hstop
      · next hr => rw [hr] at hstop; cases hstop
      · rfl
    · rw [← hsame]
      split
      · exact .inr rfl
      · exact resolveFully_cutShort hle d text _
      · exact .inl rfl
  · exact resolveFully_cutShort hle d text []

/-- A limit that leaves room for all parts is not exceeded by any text. -/
theorem resolve_ample {g : Grammar} (hg : g.Valid) {d : DefId} (hd : d < g.size) {text : Text}
    (hlimit : ∀ l ∈ g.limits.recursionLimit, Query.partCount g.size (byteLength text) ≤ l) :
    (resolve g d text).result ≠ .error .limitExceeded := by
  have hsettled := fun prune => Query.run_ample (q := ⟨g, text, prune⟩) hg hlimit hd
  have hfully : ∀ before, (resolveFully g d text before).result ≠ .error .limitExceeded := by
    intro before
    rw [resolveFully]
    split
    · exact fun h => by cases h
    · exact fun h => by cases h
    · next e s hne hr =>
      have h := hsettled false
      rw [hr] at h
      exact absurd h hne
  rw [resolve]
  split
  · split
    · exact fun h => by cases h
    · exact hfully _
    · next e s hne hr =>
      have h := hsettled true
      rw [hr] at h
      exact absurd h hne
  · exact hfully _

/-- **The recursion limit is a pure cut-off.**  For two grammars of one draft that differ in their
limits, every text either exceeds the smaller limit or has the same outcome under both, down to the
events of the search and the report of its failure.  So what is accepted under the smaller limit is
split in the same way under the larger one.  A limit that is not below the number of definitions times
the number of ranges of the text is never exceeded. -/
theorem resolve_withLimit {draft : Draft} {limit limit' : Option Nat} {g g' : Grammar}
    (hbuild : (draft.withLimit limit).build = .ok g)
    (hbuild' : (draft.withLimit limit').build = .ok g') (hle : Limits.AtMost limit limit')
    (d : DefId) (text : Text) :
    ((resolve g d text).result = .error .limitExceeded ∨ resolve g d text = resolve g' d text) ∧
    (∀ split, (resolve g d text).result = .ok split → (resolve g' d text).result = .ok split) ∧
    (d < g.size →
      (∀ l ∈ limit, g.size * ((byteLength text + 1) * (byteLength text + 2) / 2) ≤ l) →
      (resolve g d text).result ≠ .error .limitExceeded) := by
  obtain ⟨hlimit, rfl⟩ := Draft.build_withLimit hbuild hbuild'
  have hself : g.withLimit limit = g := by rw [← hlimit]; rfl
  have hcut := resolve_cutShort (g := g) hle d text
  rw [hself] at hcut
  refine ⟨hcut, fun split hsplit => ?_, fun hd hample => ?_⟩
  · rcases hcut with hstop | hsame
    · cases hsplit.symm.trans hstop
    · rw [← hsame, hsplit]
  · exact resolve_ample (Draft.build_valid hbuild) hd (by rw [hlimit]; exact hample)

/-- Four definitions and the six ranges of two letters: a row of two letters does not exceed a limit
of 24, and has the split that it has without a limit. -/
theorem resolve_withLimit_row :
    (rowDraft.withLimit (some 24)).build = .ok (rowGrammar.withLimit (some 24)) ∧
      (rowDraft.withLimit none).build = .ok rowGrammar ∧
      Limits.AtMost (some 24) none ∧
      (resolve (rowGrammar.withLimit (some 24)) 0 ['a', 'a']).result = .ok rowSplit := by
  have hbuild : (rowDraft.withLimit (some 24)).build = .ok (rowGrammar.withLimit (some 24)) := by
    with_unfolding_all rfl
  have hbuild' : (rowDraft.withLimit none).build = .ok rowGrammar := by with_unfolding_all rfl
  have hle : Limits.AtMost (some 24) none := fun l hl => by cases hl
  obtain ⟨hcut, -, hample⟩ := resolve_withLimit hbuild hbuild' hle 0 ['a', 'a']
  refine ⟨hbuild, hbuild', hle, ?_⟩
  rw [hcut.resolve_left (hample (by decide) (by decide))]
  exact resolve_of_run rowGrammar_feasible run_row

end Tessera
