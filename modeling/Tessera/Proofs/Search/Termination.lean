/-
**Every search ends.**

A part is never entered inside of itself, and there are only so many parts of a text, so the nesting
is bounded by their number.  Along a loop every useful element brings the loop closer to its end: it
is needed, it advances, or it is a separator before an item that is needed or advances.

Main definitions:

* `Tessera.LoopPlan.measure` — a bound for the elements that are still to come;
* `Tessera.Rule.Begins`, `Tessera.Query.Calls` — which parts a rule looks at, and where;
* `Tessera.allParts` — the parts of a text;
* `Tessera.Query.SteadyOn` — what the steps of a search for one part keep of its state;
* `Tessera.Query.Guide` — what every step of a search keeps.

Main results:

* `Tessera.LoopPlan.measure_lt` — every useful element brings a loop closer to its end;
* `Tessera.length_le_partCount` — parts inside of each other are not more than the parts there are;
* `Tessera.Query.parse_guided` — **the search keeps what every step of it keeps**, and it does not
  run out of fuel.
-/

import Mathlib.Data.List.Perm.Subperm
import Mathlib.Tactic.Ring
import Tessera.Proofs.Search.Attempts
import Tessera.Proofs.Search.Plain
import Tessera.Proofs.Search.Ranges

set_option autoImplicit false

namespace Tessera

/-! ### Loops -/

namespace LoopPlan

variable {p : LoopPlan} {trail : List Split} {cursor e : Nat}

/-- Every element is an item, or the separator after another element. -/
theorem element_cases (p : LoopPlan) (trail : List Split) :
    p.element trail = p.item ∨ trail ≠ [] ∧ p.separator = some (p.element trail) := by
  rw [element]
  cases hsep : p.separator with
  | none => exact .inl rfl
  | some separator =>
      dsimp only
      split
      · next hexpects =>
        refine .inr ⟨?_, rfl⟩
        rintro rfl
        simp [expectsSeparator] at hexpects
      · exact .inl rfl

theorem element_lt {size : Nat} (hitem : p.item < size)
    (hseparator : ∀ separator, p.separator = some separator → separator < size)
    (trail : List Split) : p.element trail < size := by
  rcases p.element_cases trail with helement | ⟨-, helement⟩
  · rwa [helement]
  · exact hseparator _ helement

/-- A bound for the number of elements that still follow those of `trail`.  An item and the separator
before it are counted together; what is added depends on which of the two comes next. -/
def measure (p : LoopPlan) (trail : List Split) (cursor : Nat) : Nat :=
  2 * ((p.stop - cursor) + (p.repetition.min - p.count trail)) +
    if p.separator.isNone then 0
    else if p.expectsSeparator trail then 2
    else if p.endsWithEmptySeparator trail then 1
    else 3

/-- Every useful element brings the loop closer to its end. -/
theorem measure_lt (huseful : p.isUseful trail cursor e = true) (hle : cursor ≤ e)
    (hstop : e ≤ p.stop) {part : Split} (hspan : part.span = ⟨cursor, e⟩) :
    p.measure (part :: trail) e < p.measure trail cursor := by
  have hempty : part.isEmpty = decide (cursor = e) := by
    rw [Split.isEmpty, hspan]; rfl
  cases hsep : p.separator with
  | none =>
      simp only [isUseful, hsep, belowMin, count, Option.isSome_none, Bool.false_and,
        Bool.false_eq_true, if_false, Bool.or_eq_true, decide_eq_true_eq] at huseful
      simp only [measure, hsep, count, Option.isSome_none, Option.isNone_none, List.length_cons,
        Bool.false_eq_true, if_true, if_false]
      omega
  | some separator =>
      simp only [isUseful, hsep, belowMin, count, Option.isSome_some, Bool.true_and, if_true,
        endsWithEmptySeparator, endsWithSeparator, expectsSeparator] at huseful
      simp only [measure, hsep, count, Option.isSome_some, Option.isNone_some, List.length_cons,
        if_true, endsWithEmptySeparator, endsWithSeparator, expectsSeparator, Bool.true_and,
        List.isEmpty_cons, Bool.not_false, List.head?_cons, Option.any_some, hempty,
        Bool.false_eq_true, if_false]
      have hfalse : ((0 : Nat) == 1) = false := rfl
      rcases Nat.mod_two_eq_zero_or_one trail.length with hparity | hparity
      · -- the element is an item
        have hnext : (trail.length + 1) % 2 = 1 := by omega
        simp only [hparity, hnext, hfalse, beq_self_eq_true, Bool.not_false, Bool.and_true, if_true,
          Bool.false_eq_true, if_false] at huseful ⊢
        cases hafter : (!trail.isEmpty && Option.any Split.isEmpty trail.head?) with
        | true =>
            simp only [hafter, Bool.not_true, Bool.false_eq_true, if_false, Bool.or_eq_true,
              decide_eq_true_eq, if_true] at huseful ⊢
            omega
        | false =>
            simp only [Bool.false_eq_true, if_false]
            omega
      · -- the element is a separator
        have hnext : (trail.length + 1) % 2 = 0 := by omega
        simp only [hparity, hnext, hfalse, beq_self_eq_true, if_true, Bool.not_false, Bool.true_and, Bool.false_eq_true, if_false,
          decide_eq_true_eq]
        split <;> omega

/-- The fuel of a loop exceeds the number of its elements. -/
theorem measure_lt_fuel (p : LoopPlan) : p.measure [] p.start < p.fuel := by
  simp only [measure, fuel]
  split
  · omega
  · split
    · omega
    · split <;> omega

end LoopPlan

/-! ### Parts -/

/-- The parts of a text of `bytes` bytes, in a grammar of `size` definitions. -/
def allParts (size bytes : Nat) : List Part :=
  (List.range size).flatMap fun d =>
    (List.range (bytes + 1)).flatMap fun stop =>
      (List.range (stop + 1)).map fun start => ⟨d, start, stop⟩

theorem mem_allParts {size bytes : Nat} {part : Part} :
    part ∈ allParts size bytes ↔
      part.definition < size ∧ part.start ≤ part.stop ∧ part.stop ≤ bytes := by
  obtain ⟨d, start, stop⟩ := part
  simp only [allParts, List.mem_flatMap, List.mem_range, List.mem_map, Part.mk.injEq]
  constructor
  · rintro ⟨_, hd, _, hstop, _, hstart, rfl, rfl, rfl⟩
    exact ⟨hd, by omega, by omega⟩
  · rintro ⟨hd, hstart, hstop⟩
    exact ⟨d, hd, stop, by omega, start, by omega, rfl, rfl, rfl⟩

theorem length_allParts (size bytes : Nat) :
    (allParts size bytes).length = Query.partCount size bytes := by
  have htriangle : ∀ n, ((List.range n).map fun stop => stop + 1).sum = n * (n + 1) / 2 := by
    intro n
    induction n with
    | zero => rfl
    | succ n ih =>
        rw [List.range_succ, List.map_append, List.sum_append, ih]
        have : (n + 1) * (n + 1 + 1) = n * (n + 1) + 2 * (n + 1) := by ring
        simp only [List.map_cons, List.map_nil, List.sum_cons, List.sum_nil]
        omega
  simp only [allParts, Query.partCount, List.length_flatMap, List.length_map, List.length_range,
    htriangle, List.map_const', List.sum_replicate_nat]

/-- Parts inside of each other are not more than the parts there are. -/
theorem length_le_partCount {size bytes : Nat} {active : List Part} (hnodup : active.Nodup)
    (hmem : ∀ part ∈ active, part ∈ allParts size bytes) :
    active.length ≤ Query.partCount size bytes := by
  rw [← length_allParts]
  exact (hnodup.subperm hmem).length_le

/-! ### What a rule begins with -/

/-- What a rule may try first: the definitions before which there is nothing in it, or only parts that
may be empty. -/
def Rule.Begins (empty : DefId → Prop) : Rule → DefId → Prop
  | .sequence items, c => ∃ k, items[k]? = some c ∧ ∀ i ∈ items.take k, empty i
  | .choice alternatives, c => c ∈ alternatives
  | .optional item _, c => c = item
  | .loop item _, c => c = item
  | .separated item separator _ _, c => c = item ∨ c = separator ∧ empty item
  | _, _ => False

/-! ### The search -/

namespace Query

open Attempt

variable {q : Query}

/-- On every range of the text, a search for the parts of a definition finds a split of that range
or is rejected. -/
def SettlesParts (q : Query) {σ : Type} (parse : DefId → Nat → Nat → Attempt σ Split) : Prop :=
  ∀ d start stop, d < q.grammar.size → IsRange q.text start stop →
    Settles (fun s => s.span = ⟨start, stop⟩) (parse d start stop)

/-- A search for the definition over the range `start` to `stop` may try `c` over the range from `s` to
`e`.  Where its own range begins it tries only what it may begin with; `empty` tells which parts may be
empty. -/
structure Calls (q : Query) (empty : DefId → Prop) (d : DefId) (start stop : Nat) (c : DefId)
    (s e : Nat) : Prop where
  mem : c ∈ (q.grammar.shape d).references
  range : IsRange q.text s e
  left : start ≤ s
  right : e ≤ stop
  begins : s = start → (q.grammar.shape d).Begins empty c

/-- On every range of the text, a search for the parts of a definition keeps an invariant, and it
finds a split of that range or stops for an admitted reason. -/
def GuidesParts (q : Query) (I : SearchState → Prop) (A : Abort → Prop) (parse : Parse) : Prop :=
  ∀ d start stop, d < q.grammar.size → IsRange q.text start stop →
    Guided I A (fun s => s.span = ⟨start, stop⟩) (parse d start stop)

/-- An invariant that the notes of failures inside of the text and the candidates that are given up do
not touch. -/
structure Steady (q : Query) (I : SearchState → Prop) : Prop where
  note : ∀ s f, IsRange q.text f.start f.stop → I s → I (s.record f)
  backtrack : ∀ s d e, I s → I (s.happen (.backtrack d e))

/-- An invariant that the notes of failures inside of the text do not touch, nor the candidates that are
given up by a definition inside of a range. -/
structure SteadyOn (q : Query) (I : SearchState → Prop) (d : DefId) (start stop : Nat) : Prop where
  note : ∀ s f, IsRange q.text f.start f.stop → I s → I (s.record f)
  backtrack : ∀ s e, start ≤ e → e ≤ stop → I s → I (s.happen (.backtrack d e))

theorem Steady.on {I : SearchState → Prop} (h : q.Steady I) (d : DefId) (start stop : Nat) :
    q.SteadyOn I d start stop :=
  ⟨h.note, fun s e _ _ hs => h.backtrack s d e hs⟩

section Rules

variable {I : SearchState → Prop} {A : Abort → Prop} {parse : Parse} {empty : DefId → Prop}
  {Call : DefId → Nat → Nat → Prop} {d : DefId} {start stop : Nat}

theorem guided_note (hI : q.SteadyOn I d start stop) {f : Failure} (hf : IsRange q.text f.start f.stop) :
    Guided I A (fun _ => True) (Search.note f) := Guided.update fun s => hI.note s f hf

theorem guided_fail {α : Type} {P : α → Prop} (hI : q.SteadyOn I d start stop) (hA : A .rejected)
    {f : Failure} (hf : IsRange q.text f.start f.stop) : Guided I A P (Search.fail f : Search α) :=
  (guided_note hI hf).bind fun _ _ => Guided.reject hA

theorem guided_backtrack (hI : q.SteadyOn I d start stop) {e : Nat} (hstart : start ≤ e)
    (hstop : e ≤ stop) : Guided I A (fun _ => True) (Search.emit (.backtrack d e)) :=
  Guided.update fun s => hI.backtrack s e hstart hstop

variable (hg : q.grammar.Valid) (hI : q.SteadyOn I d start stop) (hA : A .rejected)
  (hparse : ∀ c s e, Call c s e →
    Guided I A (fun x => x.span = ⟨s, e⟩ ∧ (s = e → empty c)) (parse c s e))
include hg hI hA hparse

theorem sequenceFrom_guided {follows : Array Filter} {all items : List DefId} {k cursor : Nat} (hdrop : all.drop k = items)
    (hcall : ∀ k item cursor e, all[k]? = some item → IsRange q.text cursor e → start ≤ cursor →
      e ≤ stop → (cursor = start → ∀ i ∈ all.take k, empty i) → Call item cursor e)
    (hbefore : cursor = start → ∀ i ∈ all.take k, empty i) (hstart : start ≤ cursor)
    (hrange : IsRange q.text cursor stop) :
    Guided (fun s => I s.1) A (fun _ => True)
      (q.sequenceFrom parse d stop follows items k cursor) := by
  induction items generalizing k cursor with
  | nil =>
      rw [sequenceFrom]
      split
      · exact Guided.pure trivial
      · exact (guided_fail hI hA hrange).onFirst
  | cons item items ih =>
      have hnext : all.drop (k + 1) = items := by rw [← List.drop_drop, hdrop]; rfl
      have hat : all[k]? = some item := by rw [← List.head?_drop, hdrop]; rfl
      rw [sequenceFrom]
      refine Guided.bind (Guided.inspect _) fun dead _ => ?_
      split
      · exact Guided.reject hA
      dsimp only
      split
      · exact (guided_fail hI hA hrange).onFirst
      have hcut := fun e (he : e ∈ (q.ends item cursor stop).filter
          (follows.getD (k + 1) .everywhere).allows) =>
        isRange_of_mem_allEnds hg hrange (mem_allEnds_of_ends (List.mem_filter.1 he).1)
      refine Guided.firstOf (fun e he => ?_)
        (fun e he => (guided_backtrack hI (hstart.trans (hcut e he).1.le) (hcut e he).2.le).onFirst)
        (Guided.bind (Guided.update fun _ hs => hs) fun _ _ => Guided.reject hA)
      obtain ⟨hleft, hright⟩ := hcut e he
      refine Guided.bind
        (hparse item cursor e (hcall k item cursor e hat hleft hstart hright.le hbefore)).onFirst
        fun part hpart => ?_
      -- when the next item begins where the sequence does, this one is empty
      have hafter : e = start → ∀ i ∈ all.take (k + 1), empty i := by
        rintro rfl i hi
        have hcursor : cursor = e := Nat.le_antisymm hleft.le hstart
        rw [List.take_add_one, hat] at hi
        rcases List.mem_append.1 hi with hi | hi
        · exact hbefore hcursor i hi
        · obtain rfl : i = item := by simpa using hi
          exact hpart.2 hcursor
      exact Guided.bind (ih hnext hafter (hstart.trans hleft.le) hright)
        fun parts _ => Guided.pure trivial

theorem sequence_guided {items : List DefId}
    (hcall : ∀ k item cursor e, items[k]? = some item → IsRange q.text cursor e → start ≤ cursor →
      e ≤ stop → (cursor = start → ∀ i ∈ items.take k, empty i) → Call item cursor e)
    (hrange : IsRange q.text start stop) :
    Guided I A (fun s => s.span = ⟨start, stop⟩) (q.sequence parse d items start stop) := by
  intro s hs
  have hfrom : Guided (fun s => I s.1) A (fun _ => True) (q.sequenceFrom parse d stop
      (q.sequenceFollows d items.length start stop) items 0 start) :=
    sequenceFrom_guided hg hI hA hparse List.drop_zero hcall (by simp) (Nat.le_refl _) hrange
  have h := hfrom (s, ∅) hs
  rw [sequence]
  split
  · next hr => rw [hr] at h; exact ⟨h.1, rfl⟩
  · next hr => rw [hr] at h; exact h

omit hg in
theorem choice_guided {alternatives : List DefId} {index : Nat}
    (hcall : ∀ a ∈ alternatives, Call a start stop) (hrange : IsRange q.text start stop) :
    Guided I A (fun s => s.span = ⟨start, stop⟩)
      (q.choice parse d start stop alternatives index) := by
  induction alternatives generalizing index with
  | nil => exact guided_fail hI hA hrange
  | cons a as ih =>
      rw [choice]
      refine Guided.orElse ?_ (ih fun b hb => hcall b (List.mem_cons_of_mem a hb))
      split
      · exact Guided.reject hA
      · exact Guided.bind (hparse a start stop (hcall a List.mem_cons_self))
          fun inner _ => Guided.pure rfl

omit hI in
/-- With more fuel than the measure of its state, a loop does not run out of it. -/
theorem extend_guided {p : LoopPlan} (hI : q.SteadyOn I p.definition p.start p.stop)
    (hitem : ∀ s e, IsRange q.text s e → p.start ≤ s → e ≤ p.stop → Call p.item s e)
    (hseparator : ∀ separator s e, p.separator = some separator → IsRange q.text s e →
      p.start ≤ s → e ≤ p.stop → (s = p.start → empty p.item) → Call separator s e)
    {fuel : Nat} {trail : List Split} {cursor : Nat} (hstart : p.start ≤ cursor)
    (hbefore : cursor = p.start → trail ≠ [] → empty p.item)
    (hrange : IsRange q.text cursor p.stop) (hfuel : p.measure trail cursor < fuel) :
    Guided (fun s => I s.1) A (fun _ => True) (q.extend parse p fuel trail cursor) := by
  induction fuel generalizing trail cursor with
  | zero => omega
  | succ fuel ih =>
      have hgiveUp : Guided (fun s : LoopState => I s.1) A (fun _ => True)
          (Attempt.update (fun s : LoopState => (s.1, s.2.insert (p.point trail cursor))) >>=
            fun _ => (Attempt.reject : Attempt LoopState (List Split))) :=
        Guided.bind (Guided.update fun _ hs => hs) fun _ _ => Guided.reject hA
      have hfailure : IsRange q.text (loopFailure p trail cursor).start
          (loopFailure p trail cursor).stop := by
        rw [loopFailure]
        split <;> exact hrange
      rw [extend]
      split
      · exact Guided.pure trivial
      refine Guided.bind (Guided.inspect _) fun dead _ => ?_
      split
      · exact Guided.reject hA
      split
      · split
        · exact Guided.bind (guided_note hI hrange).onFirst fun _ _ => hgiveUp
        · exact hgiveUp
      have hnext : Guided (fun s : LoopState => I s.1) A (fun _ => True)
          (Attempt.firstOf
            (fun e => Attempt.onFirst (parse (p.element trail) cursor e) >>= fun part =>
              q.extend parse p fuel (part :: trail) e)
            (fun e => Attempt.onFirst (Search.emit (.backtrack p.definition e)))
            (Attempt.update (fun s => (s.1, s.2.insert (p.point trail cursor))) >>= fun _ =>
              Attempt.reject)
            (q.loopEnds p trail cursor)) := by
        have hcut := fun e (he : e ∈ q.loopEnds p trail cursor) =>
          isRange_of_mem_allEnds hg hrange (mem_allEnds_of_loopEnds he)
        refine Guided.firstOf (fun e he => ?_)
          (fun e he => (guided_backtrack hI (hstart.trans (hcut e he).1.le) (hcut e he).2.le).onFirst)
          hgiveUp
        obtain ⟨hleft, hright⟩ := hcut e he
        have hcall : Call (p.element trail) cursor e := by
          rcases p.element_cases trail with helement | ⟨hnonempty, helement⟩
          · rw [helement]
            exact hitem cursor e hleft hstart hright.le
          · exact hseparator _ cursor e helement hleft hstart hright.le
              fun hcursor => hbefore hcursor hnonempty
        refine Guided.bind (hparse _ cursor e hcall).onFirst fun part hpart => ?_
        have hless := LoopPlan.measure_lt (isUseful_of_loopEnds he) hleft.le hright.le hpart.1
        refine ih (hstart.trans hleft.le) (fun hcursor _ => ?_) hright (by omega)
        -- when the next element begins where the loop does, the first item is empty
        have hsame : cursor = e := Nat.le_antisymm hleft.le (hcursor ▸ hstart)
        rcases p.element_cases trail with helement | ⟨hnonempty, -⟩
        · rw [← helement]
          exact hpart.2 hsame
        · exact hbefore (hsame.trans hcursor) hnonempty
      dsimp only
      split
      · exact Guided.bind (guided_note hI hfailure).onFirst fun _ _ => hnext
      · exact hnext

omit hI in
theorem loop_guided {p : LoopPlan} (hI : q.SteadyOn I p.definition p.start p.stop)
    (hitem : ∀ s e, IsRange q.text s e → p.start ≤ s → e ≤ p.stop → Call p.item s e)
    (hseparator : ∀ separator s e, p.separator = some separator → IsRange q.text s e →
      p.start ≤ s → e ≤ p.stop → (s = p.start → empty p.item) → Call separator s e)
    (hrange : IsRange q.text p.start p.stop) :
    Guided I A (fun s => s.span = ⟨p.start, p.stop⟩) (q.loop parse p) := by
  intro s hs
  have h := extend_guided hg hA hparse hI hitem hseparator (Nat.le_refl _) (by simp) hrange
    p.measure_lt_fuel (s, ∅) hs
  rw [loop]
  match hr : q.extend parse p p.fuel [] p.start (s, ∅) with
  | (.ok elements, s') => rw [hr] at h; exact ⟨h.1, toSplit_span p elements⟩
  | (.error e, s') => rw [hr] at h; exact h

end Rules

/-- A guided search for the parts that a structural rule tries makes a guided search for the rule. -/
theorem parseShape_guided {I : SearchState → Prop} {A : Abort → Prop} {parse : Parse}
    {empty : DefId → Prop} {d : DefId} {start stop : Nat} (hg : q.grammar.Valid)
    (hI : q.SteadyOn I d start stop) (hA : A .rejected) (hrange : IsRange q.text start stop)
    (hparse : ∀ c s e, q.Calls empty d start stop c s e →
      Guided I A (fun x => x.span = ⟨s, e⟩ ∧ (s = e → empty c)) (parse c s e)) :
    Guided I A (fun s => s.span = ⟨start, stop⟩) (q.parseShape parse d start stop) := by
  have hleaf : ∀ fits, Guided I A (fun s : Split => s.span = ⟨start, stop⟩)
      (leaf d start stop fits) := by
    intro fits
    cases fits with
    | true => exact Guided.pure rfl
    | false => exact guided_fail hI hA hrange
  rw [parseShape]
  cases hshape : q.grammar.shape d with
  | literal text => exact hleaf _
  | pattern source => exact hleaf _
  | empty => exact hleaf _
  | sequence items =>
      refine sequence_guided hg hI hA hparse (fun k item cursor e hat hpart hleft hright hbefore =>
        ⟨?_, hpart, hleft, hright, fun hcursor => ?_⟩) hrange
      · rw [hshape]
        exact List.mem_of_getElem? hat
      · rw [hshape]
        exact ⟨k, hat, hbefore hcursor⟩
  | choice alternatives =>
      refine choice_guided hI hA hparse (fun a ha =>
        ⟨?_, hrange, Nat.le_refl _, Nat.le_refl _, fun _ => ?_⟩) hrange <;> rw [hshape] <;> exact ha
  | optional item quantifier =>
      have hcall : q.Calls empty d start stop item start stop := by
        refine ⟨?_, hrange, Nat.le_refl _, Nat.le_refl _, fun _ => ?_⟩ <;> rw [hshape]
        · exact List.mem_singleton_self _
        · rfl
      dsimp only
      split
      · exact Guided.pure rfl
      · exact Guided.bind (hparse item start stop hcall) fun inner _ => Guided.pure rfl
  | loop item repetition =>
      refine loop_guided hg hA hparse (p := q.loopPlan d item none repetition start stop) hI
        (fun s e hpart hleft hright => ⟨?_, hpart, hleft, hright, fun _ => ?_⟩)
        (fun separator s e h => by simp [loopPlan] at h) hrange <;> rw [hshape]
      · exact List.mem_singleton_self _
      · rfl
  | separated item separator default repetition =>
      refine loop_guided hg hA hparse
        (p := q.loopPlan d item (some separator) repetition start stop) hI
        (fun s e hpart hleft hright => ⟨?_, hpart, hleft, hright, fun _ => ?_⟩)
        (fun other s e hother hpart hleft hright hempty =>
          ⟨?_, hpart, hleft, hright, fun hs => ?_⟩) hrange <;> rw [hshape]
      · exact List.mem_cons_self
      · exact .inl rfl
      · obtain rfl : separator = other := Option.some.inj hother
        exact List.mem_cons_of_mem item List.mem_cons_self
      · exact .inr ⟨(Option.some.inj hother).symm, hempty hs⟩
  | «alias» target name => exact Guided.reject hA
  | forward target => exact Guided.reject hA
  | withDefault content target => exact Guided.reject hA

/-! ### The nesting -/

/-- What a search inside of the parts `active` guarantees of its state, for every `active`, together
with the reasons for which it may stop. -/
structure Guide (q : Query) (I : List Part → SearchState → Prop) (A : Abort → Prop) : Prop where
  rejected : A .rejected
  limited : q.grammar.limits.recursionLimit.isSome → A .limitExceeded
  steady : ∀ active, q.Steady (I active)
  refuse : ∀ active s, I active s → I active s.refuse
  giveUp : ∀ active s part, I active s → I active (s.giveUp part)
  /-- A part that the search is not inside of is entered. -/
  enter : ∀ active s d start stop,
    (⟨q.grammar.resolve d, start, stop⟩ : Part) ∉ active →
    (⟨q.grammar.resolve d, start, stop⟩ : Part) ∈ allParts q.grammar.size (byteLength q.text) →
    I active s → I (⟨q.grammar.resolve d, start, stop⟩ :: active) (s.happen (.enter d start stop))
  accept : ∀ active s part d start stop,
    I (part :: active) s → I active (s.happen (.accept d start stop))
  reject : ∀ active s part d start stop,
    I (part :: active) s → I active (s.happen (.reject d start stop))

/-- **The search keeps what every step of it keeps**, and it does not run out of fuel: inside of
parts that are not inside of themselves, fuel for the remaining parts suffices. -/
theorem parse_guided {I : List Part → SearchState → Prop} {A : Abort → Prop}
    (hg : q.grammar.Valid) (h : q.Guide I A) {fuel : Nat} {active : List Part}
    (hnodup : active.Nodup)
    (hactive : ∀ part ∈ active, part ∈ allParts q.grammar.size (byteLength q.text))
    (hfuel : partCount q.grammar.size (byteLength q.text) < fuel + active.length) :
    q.GuidesParts (I active) A (q.parse fuel active) := by
  induction fuel generalizing active with
  | zero =>
      have := length_le_partCount hnodup hactive
      omega
  | succ fuel ih =>
      intro d start stop hd hrange s hs
      simp only [parse]
      split
      · exact ⟨hs, h.rejected⟩
      split
      · exact ⟨h.refuse active s hs, h.rejected⟩
      next hfresh =>
      split
      · next hdeep =>
        refine ⟨hs, h.limited ?_⟩
        cases hlimit : q.grammar.limits.recursionLimit with
        | none => rw [hlimit] at hdeep; cases hdeep
        | some limit => rfl
      have hpart : (⟨q.grammar.resolve d, start, stop⟩ : Part) ∈
          allParts q.grammar.size (byteLength q.text) :=
        mem_allParts.2 ⟨hg.resolve_lt d hd, hrange.le, hrange.right.le⟩
      have hfresh : (⟨q.grammar.resolve d, start, stop⟩ : Part) ∉ active := by
        simpa using hfresh
      have hinner : q.GuidesParts (I (⟨q.grammar.resolve d, start, stop⟩ :: active)) A
          (q.parse fuel (⟨q.grammar.resolve d, start, stop⟩ :: active)) :=
        ih (List.nodup_cons.2 ⟨hfresh, hnodup⟩) (List.forall_mem_cons.2 ⟨hpart, hactive⟩)
          (by rw [List.length_cons]; omega)
      have hcalls : ∀ c s e, q.Calls (fun _ => True) d start stop c s e →
          Guided (I (⟨q.grammar.resolve d, start, stop⟩ :: active)) A
            (fun x => x.span = ⟨s, e⟩ ∧ (s = e → True))
            (q.parse fuel (⟨q.grammar.resolve d, start, stop⟩ :: active) c s e) := by
        intro c s e hcall
        refine (hinner c s e (hg.references_shape hcall.mem) hcall.range).weaken fun x hx => ?_
        exact ⟨hx, fun _ => trivial⟩
      have hshape := parseShape_guided hg ((h.steady _).on d start stop) h.rejected hrange hcalls _
        (h.enter active s d start stop hfresh hpart hs)
      split
      · next hr =>
        rw [hr] at hshape
        exact ⟨h.accept _ _ _ _ _ _ hshape.1, hshape.2⟩
      · next hr =>
        rw [hr] at hshape
        have hrejected := h.reject _ _ _ d start stop hshape.1
        split
        · exact ⟨h.giveUp _ _ _ hrejected, hshape.2⟩
        · exact ⟨hrejected, hshape.2⟩

/-- Nothing has to be known of the state for a search to go on. -/
theorem guide_trivial {A : Abort → Prop} (hrejected : A .rejected)
    (hlimited : q.grammar.limits.recursionLimit.isSome → A .limitExceeded) :
    q.Guide (fun _ _ => True) A where
  rejected := hrejected
  limited := hlimited
  steady _ := ⟨fun _ _ _ _ => trivial, fun _ _ _ _ => trivial⟩
  refuse _ _ _ := trivial
  giveUp _ _ _ _ := trivial
  enter _ _ _ _ _ _ _ _ := trivial
  accept _ _ _ _ _ _ _ := trivial
  reject _ _ _ _ _ _ _ := trivial

variable (hg : q.grammar.Valid)
include hg

/-- **Without a recursion limit the search settles**: inside of parts that are not inside of
themselves, fuel for the remaining parts suffices. -/
theorem parse_settles (hlimit : q.grammar.limits.recursionLimit = none) {fuel : Nat}
    {active : List Part} (hnodup : active.Nodup)
    (hactive : ∀ part ∈ active, part ∈ allParts q.grammar.size (byteLength q.text))
    (hfuel : partCount q.grammar.size (byteLength q.text) < fuel + active.length) :
    q.SettlesParts (q.parse fuel active) := by
  intro d start stop hd hrange
  have hguide : q.Guide (fun _ _ => True) (· = .rejected) :=
    guide_trivial rfl fun h => by simp [hlimit] at h
  exact (parse_guided hg hguide hnodup hactive hfuel d start stop hd hrange).settles

/-- **Every search of a text ends**: it finds a split of the whole text or rejects it. -/
theorem run_settles (hlimit : q.grammar.limits.recursionLimit = none) {d : DefId}
    (hd : d < q.grammar.size) :
    Settled (fun s => s.span = ⟨0, byteLength q.text⟩) (q.run d).1 :=
  parse_settles hg hlimit List.nodup_nil (by simp) (by simp) d 0 _ hd (IsRange.whole q.text) _

end Query

end Tessera
