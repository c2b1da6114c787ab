/-
**What a loop explores.**

A loop goes from the elements that it has found to one more element, whose end is one of the
candidates.  The elements that it may have found in this way form its trails.  From the smallest
number of items on every further item of a loop is longer than nothing, and so is every separator
together with the item after it.  A trail is therefore no longer than the measure of the loop, there
are finitely many of them, and more fuel than the loop comes with would change nothing.

As the search for a part is only asked about ranges inside of the text, the fuel for the nesting does
not matter either, once it suffices.

Main definitions:

* `Tessera.Query.Tries` — the candidates at the end of a trail;
* `Tessera.Query.Trail` — the elements that a loop may have found;
* `Tessera.Query.Exhaustible` — a loop that runs out of things to try.

Main results:

* `Tessera.Query.Tries.advances`, `Tessera.Query.Tries.pair_advances` — with enough items, every
  further item, and every separator with the item after it, advances;
* `Tessera.Query.trails_finite` — **a loop explores finitely many trails**;
* `Tessera.Query.extend_congr` — a loop depends on what is found at the ends of its trails alone;
* `Tessera.Query.parse_congr` — **what suffices as fuel gives the same result**.
-/

import Mathlib.Data.Fintype.Prod
import Mathlib.Data.Set.Finite.List
import Tessera.Proofs.Search.Termination

set_option autoImplicit false

namespace Tessera

/-! ### Attempts that agree -/

namespace Attempt

variable {σ α β : Type}

/-- The second of two attempts matters for the values that the first one finds. -/
theorem bind_congr {a : Attempt σ α} {f f' : α → Attempt σ β} {P : α → Prop}
    (ha : Guided (fun _ => True) (fun _ => True) P a) (hf : ∀ x, P x → f x = f' x) :
    a >>= f = a >>= f' := by
  funext s
  have hends := (ha s trivial).2
  rw [bind_apply, bind_apply]
  match hr : a s with
  | (.ok x, s') =>
      rw [hr] at hends
      have hx : f x = f' x := hf x hends
      exact congrFun hx s'
  | (.error e, s') => rfl

/-- Candidates matter as far as they are tried. -/
theorem firstOf_congr {attempt attempt' : α → Attempt σ β} {undo : α → Attempt σ Unit}
    {otherwise : Attempt σ β} {as : List α} (h : ∀ a ∈ as, attempt a = attempt' a) :
    firstOf attempt undo otherwise as = firstOf attempt' undo otherwise as := by
  induction as with
  | nil => rfl
  | cons a as ih =>
      rw [firstOf, firstOf, h a List.mem_cons_self, ih fun b hb => h b (List.mem_cons_of_mem a hb)]

end Attempt

namespace Query

open Attempt

variable {q : Query} {p : LoopPlan} {trail : List Split} {cursor e f : Nat} {part : Split}

/-! ### Trails -/

/-- After the elements of `trail`, which end at `cursor`, a loop tries an element that ends at `e`.
-/
structure Tries (q : Query) (p : LoopPlan) (trail : List Split) (cursor e : Nat) : Prop where
  incomplete : p.isComplete trail cursor = false
  room : p.isFull trail = false
  candidate : e ∈ q.loopEnds p trail cursor

/-- The elements that a loop may have found, latest first, and where they end. -/
inductive Trail (q : Query) (p : LoopPlan) : List Split → Nat → Prop
  | start : Trail q p [] p.start
  | next {trail : List Split} {cursor e : Nat} {part : Split} (h : Trail q p trail cursor)
      (htries : q.Tries p trail cursor e) (hspan : part.span = ⟨cursor, e⟩) :
      Trail q p (part :: trail) e

/-- **With enough items, every further item of a loop advances.** -/
theorem Tries.advances (h : q.Tries p trail cursor e) (hloop : p.separator = none)
    (hmin : p.repetition.min ≤ p.count trail) : cursor < e := by
  have huseful := isUseful_of_loopEnds h.candidate
  have hbelow : p.belowMin trail = false := by
    rw [LoopPlan.belowMin, decide_eq_false_iff_not]
    omega
  simpa [LoopPlan.isUseful, hloop, hbelow] using huseful

section Ranges

variable (hg : q.grammar.Valid)
include hg

/-- A candidate cuts what is left of the range in two. -/
theorem Tries.isRange (h : q.Tries p trail cursor e) (hrange : IsRange q.text cursor p.stop) :
    IsRange q.text cursor e ∧ IsRange q.text e p.stop :=
  isRange_of_mem_allEnds hg hrange (mem_allEnds_of_loopEnds h.candidate)

/-- **With enough items, every separator together with the item after it advances.** -/
theorem Tries.pair_advances (h : q.Tries p trail cursor e) (hspan : part.span = ⟨cursor, e⟩)
    (hnext : q.Tries p (part :: trail) e f) (hrange : IsRange q.text cursor p.stop)
    (hseparator : p.expectsSeparator trail = true) (hmin : p.repetition.min ≤ p.count trail) :
    cursor < f := by
  obtain ⟨hleft, hright⟩ := h.isRange hg hrange
  have hitem := (hnext.isRange hg hright).1
  have hle : cursor ≤ e := hleft.le
  have hle' : e ≤ f := hitem.le
  rcases Nat.lt_or_ge cursor e with hlt | hge
  · omega
  -- after an empty separator only an item that advances is useful
  obtain ⟨hsome, hodd⟩ : p.separator.isSome = true ∧ trail.length % 2 = 1 := by
    simpa [LoopPlan.expectsSeparator] using hseparator
  have hlength : (trail.length + 1) % 2 = 0 := by omega
  have hempty : p.endsWithEmptySeparator (part :: trail) = true := by
    have hpart : part.isEmpty = true := by
      rw [Split.isEmpty, hspan]
      exact beq_iff_eq.2 (show cursor = e by omega)
    simp [LoopPlan.endsWithEmptySeparator, LoopPlan.endsWithSeparator, LoopPlan.expectsSeparator,
      hsome, hlength, hpart]
  have hbelow : p.belowMin (part :: trail) = false := by
    rw [LoopPlan.belowMin, decide_eq_false_iff_not]
    simp only [LoopPlan.count, hsome, if_true, List.length_cons] at hmin ⊢
    omega
  have huseful := isUseful_of_loopEnds hnext.candidate
  have hadvances : e < f := by
    simpa [LoopPlan.isUseful, hempty, hbelow] using huseful
  omega

variable (hrange : IsRange q.text p.start p.stop)
include hrange

/-- What follows a trail is a range. -/
theorem Trail.isRange (h : q.Trail p trail cursor) : IsRange q.text cursor p.stop := by
  induction h with
  | start => exact hrange
  | next h htries hspan ih => exact (htries.isRange hg ih).2

/-- Every element takes from the measure. -/
theorem Trail.length_add_measure (h : q.Trail p trail cursor) :
    trail.length + p.measure trail cursor ≤ p.measure [] p.start := by
  induction h with
  | start => simp
  | next h htries hspan ih =>
      obtain ⟨hleft, hright⟩ := htries.isRange hg (h.isRange hg hrange)
      have hless := LoopPlan.measure_lt (isUseful_of_loopEnds htries.candidate) hleft.le hright.le
        hspan
      rw [List.length_cons]
      omega

/-- The elements of a trail lie inside of the text. -/
theorem Trail.span_le (h : q.Trail p trail cursor) :
    ∀ part ∈ trail, part.span.start ≤ byteLength q.text ∧ part.span.stop ≤ byteLength q.text := by
  induction h with
  | start => intro part hpart; cases hpart
  | next h htries hspan ih =>
      obtain ⟨hleft, hright⟩ := htries.isRange hg (h.isRange hg hrange)
      refine List.forall_mem_cons.2 ⟨?_, ih⟩
      rw [hspan]
      exact ⟨hleft.left.le, hleft.right.le⟩

/-- **A loop explores finitely many trails**: the ranges of their elements can be listed. -/
theorem trails_finite :
    {spans : List Span |
      ∃ trail cursor, q.Trail p trail cursor ∧ trail.map Split.span = spans}.Finite := by
  let bytes := byteLength q.text
  let span : Fin (bytes + 1) × Fin (bytes + 1) → Span := fun ends => ⟨ends.1, ends.2⟩
  have hlists := List.finite_length_le (Fin (bytes + 1) × Fin (bytes + 1)) (p.measure [] p.start)
  refine (hlists.image (List.map span)).subset ?_
  rintro spans ⟨trail, cursor, h, rfl⟩
  refine ⟨trail.map fun part =>
    (Fin.ofNat (bytes + 1) part.span.start, Fin.ofNat (bytes + 1) part.span.stop), ?_, ?_⟩
  · have hlength := h.length_add_measure hg hrange
    rw [Set.mem_ofPred_eq, List.length_map]
    omega
  · rw [List.map_map]
    refine List.map_congr_left fun part hpart => ?_
    obtain ⟨hstart, hstop⟩ := h.span_le hg hrange part hpart
    have hmod : ∀ {n}, n ≤ bytes → n % (bytes + 1) = n := fun hn => Nat.mod_eq_of_lt (by omega)
    simp only [Function.comp_apply, span, Fin.val_ofNat, hmod hstart, hmod hstop]

/-- **A loop depends on what is found at the ends of its trails alone**, and more fuel than the
measure of its state changes nothing. -/
theorem extend_congr {parse parse' : Parse}
    (hparse : ∀ trail cursor e, q.Trail p trail cursor → q.Tries p trail cursor e →
      parse (p.element trail) cursor e = parse' (p.element trail) cursor e ∧
        Guided (fun _ => True) (fun _ => True) (fun part => part.span = ⟨cursor, e⟩)
          (parse (p.element trail) cursor e))
    {fuel fuel' : Nat} (h : q.Trail p trail cursor) (hfuel : p.measure trail cursor < fuel)
    (hfuel' : p.measure trail cursor < fuel') :
    q.extend parse p fuel trail cursor = q.extend parse' p fuel' trail cursor := by
  induction fuel generalizing fuel' trail cursor with
  | zero => omega
  | succ fuel ih =>
      obtain ⟨fuel', rfl⟩ : ∃ n, fuel' = n + 1 := ⟨fuel' - 1, by omega⟩
      rw [extend, extend]
      cases hcomplete : p.isComplete trail cursor with
      | true => simp only [if_true]
      | false =>
      cases hfull : p.isFull trail with
      | true => simp only [if_true]
      | false =>
      have hnext : ∀ e ∈ q.loopEnds p trail cursor,
          (Attempt.onFirst (parse (p.element trail) cursor e) >>= fun part =>
            q.extend parse p fuel (part :: trail) e) =
          ((Attempt.onFirst (parse' (p.element trail) cursor e) >>= fun part =>
            q.extend parse' p fuel' (part :: trail) e) : Attempt LoopState (List Split)) := by
        intro e he
        have htries : q.Tries p trail cursor e := ⟨hcomplete, hfull, he⟩
        obtain ⟨hagree, hguided⟩ := hparse trail cursor e h htries
        rw [← hagree]
        refine bind_congr hguided.onFirst fun part hspan => ?_
        obtain ⟨hleft, hright⟩ := htries.isRange hg (h.isRange hg hrange)
        have hless := LoopPlan.measure_lt (isUseful_of_loopEnds he) hleft.le hright.le hspan
        exact ih (h.next htries hspan) (by omega) (by omega)
      dsimp only
      rw [firstOf_congr hnext]

end Ranges

/-- **A loop runs out of things to try.**  Its trails are finitely many because with enough items
every further item, and every separator with the item after it, advances; and nothing but the
candidates at the ends of its trails is tried, for which its fuel suffices. -/
structure Exhaustible (q : Query) (p : LoopPlan) : Prop where
  finite : {spans : List Span |
    ∃ trail cursor, q.Trail p trail cursor ∧ trail.map Split.span = spans}.Finite
  item_advances : ∀ trail cursor e, q.Trail p trail cursor → q.Tries p trail cursor e →
    p.separator = none → p.repetition.min ≤ p.count trail → cursor < e
  pair_advances : ∀ trail cursor e f part, q.Trail p trail cursor → q.Tries p trail cursor e →
    part.span = ⟨cursor, e⟩ → q.Tries p (part :: trail) e f → p.expectsSeparator trail = true →
      p.repetition.min ≤ p.count trail → cursor < f
  explored : ∀ (parse parse' : Parse) (fuel : Nat), p.fuel ≤ fuel →
    (∀ trail cursor e, q.Trail p trail cursor → q.Tries p trail cursor e →
      parse (p.element trail) cursor e = parse' (p.element trail) cursor e ∧
        Guided (fun _ => True) (fun _ => True) (fun part => part.span = ⟨cursor, e⟩)
          (parse (p.element trail) cursor e)) →
    q.extend parse p p.fuel [] p.start = q.extend parse' p fuel [] p.start

theorem exhaustible (hg : q.grammar.Valid) (hrange : IsRange q.text p.start p.stop) :
    q.Exhaustible p where
  finite := trails_finite hg hrange
  item_advances _ _ _ _ htries hloop hmin := htries.advances hloop hmin
  pair_advances _ _ _ _ _ htrail htries hspan hnext hseparator hmin :=
    htries.pair_advances hg hspan hnext (htrail.isRange hg hrange) hseparator hmin
  explored _ _ _ hfuel hparse :=
    extend_congr hg hrange hparse .start p.measure_lt_fuel (p.measure_lt_fuel.trans_le hfuel)

/-! ### The nesting -/

/-- Two searches for parts do the same on every range of the text. -/
def AgreeParts (q : Query) (parse parse' : Parse) : Prop :=
  ∀ d start stop, d < q.grammar.size → IsRange q.text start stop →
    parse d start stop = parse' d start stop

section Agreement

variable {parse parse' : Parse} (hg : q.grammar.Valid)
  (hguided : q.GuidesParts (fun _ => True) (fun _ => True) parse)
  (hagree : q.AgreeParts parse parse')
include hg hagree

theorem sequenceFrom_congr {d : DefId} {stop : Nat} {follows : Array Filter} {items : List DefId}
    {k cursor : Nat} (hitems : ∀ item ∈ items, item < q.grammar.size)
    (hrange : IsRange q.text cursor stop) :
    q.sequenceFrom parse d stop follows items k cursor =
      q.sequenceFrom parse' d stop follows items k cursor := by
  induction items generalizing k cursor with
  | nil => rfl
  | cons item items ih =>
      rw [sequenceFrom, sequenceFrom]
      dsimp only
      rw [firstOf_congr fun e he => ?_]
      obtain ⟨hleft, hright⟩ :=
        isRange_of_mem_allEnds hg hrange (mem_allEnds_of_ends (List.mem_filter.1 he).1)
      rw [hagree item cursor e (hitems item List.mem_cons_self) hleft,
        ih (fun i hi => hitems i (List.mem_cons_of_mem _ hi)) hright]

omit hg in
theorem choice_congr {d : DefId} {start stop : Nat} {alternatives : List DefId} {index : Nat}
    (halternatives : ∀ a ∈ alternatives, a < q.grammar.size) (hrange : IsRange q.text start stop) :
    q.choice parse d start stop alternatives index =
      q.choice parse' d start stop alternatives index := by
  induction alternatives generalizing index with
  | nil => rfl
  | cons a as ih =>
      rw [choice, choice, hagree a start stop (halternatives a List.mem_cons_self) hrange,
        ih fun b hb => halternatives b (List.mem_cons_of_mem a hb)]

include hguided

theorem loop_congr {p : LoopPlan} (hitem : p.item < q.grammar.size)
    (hseparator : ∀ separator, p.separator = some separator → separator < q.grammar.size)
    (hrange : IsRange q.text p.start p.stop) : q.loop parse p = q.loop parse' p := by
  have hextend : q.extend parse p p.fuel [] p.start = q.extend parse' p p.fuel [] p.start := by
    refine extend_congr hg hrange ?_ .start p.measure_lt_fuel p.measure_lt_fuel
    intro trail cursor e htrail htries
    have helement := LoopPlan.element_lt hitem hseparator trail
    have hleft := (htries.isRange hg (htrail.isRange hg hrange)).1
    exact ⟨hagree _ cursor e helement hleft, hguided _ cursor e helement hleft⟩
  funext s
  rw [loop, loop, hextend]

theorem parseShape_congr {d : DefId} {start stop : Nat} (hrange : IsRange q.text start stop) :
    q.parseShape parse d start stop = q.parseShape parse' d start stop := by
  have hmem : ∀ e ∈ (q.grammar.shape d).references, e < q.grammar.size :=
    fun e he => hg.references_shape he
  rw [parseShape, parseShape]
  cases hshape : q.grammar.shape d with
  | sequence items =>
      rw [hshape] at hmem
      have hfrom : q.sequenceFrom parse d stop (q.sequenceFollows d items.length start stop) items 0
          start = q.sequenceFrom parse' d stop (q.sequenceFollows d items.length start stop) items 0
            start := sequenceFrom_congr hg hagree hmem hrange
      funext s
      simp only [sequence, hfrom]
  | choice alternatives =>
      rw [hshape] at hmem
      exact choice_congr hagree hmem hrange
  | optional item quantifier =>
      rw [hshape] at hmem
      dsimp only
      rw [hagree item start stop (hmem item List.mem_cons_self) hrange]
  | loop item repetition =>
      rw [hshape] at hmem
      exact loop_congr hg hguided hagree (p := q.loopPlan d item none repetition start stop)
        (hmem item List.mem_cons_self) (fun separator h => by simp [loopPlan] at h) hrange
  | separated item separator default repetition =>
      rw [hshape] at hmem
      refine loop_congr hg hguided hagree
        (p := q.loopPlan d item (some separator) repetition start stop)
        (hmem item List.mem_cons_self) (fun other h => ?_) hrange
      have : separator = other := by simpa [loopPlan] using h
      exact this ▸ hmem separator (List.mem_cons_of_mem item List.mem_cons_self)
  | literal text => rfl
  | pattern source => rfl
  | empty => rfl
  | «alias» target name => rfl
  | forward target => rfl
  | withDefault content target => rfl

end Agreement

/-- **What suffices as fuel gives the same result**: inside of parts that are not inside of
themselves, two amounts of fuel for the remaining parts make no difference. -/
theorem parse_congr (hg : q.grammar.Valid) {fuel fuel' : Nat} {active : List Part}
    (hnodup : active.Nodup)
    (hactive : ∀ part ∈ active, part ∈ allParts q.grammar.size (byteLength q.text))
    (hfuel : partCount q.grammar.size (byteLength q.text) < fuel + active.length)
    (hfuel' : partCount q.grammar.size (byteLength q.text) < fuel' + active.length) :
    q.AgreeParts (q.parse fuel active) (q.parse fuel' active) := by
  induction fuel generalizing fuel' active with
  | zero =>
      have := length_le_partCount hnodup hactive
      omega
  | succ fuel ih =>
      intro d start stop hd hrange
      have hlength := length_le_partCount hnodup hactive
      obtain ⟨fuel', rfl⟩ : ∃ n, fuel' = n + 1 := ⟨fuel' - 1, by omega⟩
      funext s
      simp only [parse]
      cases hfresh : active.contains (⟨q.grammar.resolve d, start, stop⟩ : Part) with
      | true => simp only [if_true]
      | false =>
      have hpart : (⟨q.grammar.resolve d, start, stop⟩ : Part) ∈
          allParts q.grammar.size (byteLength q.text) :=
        mem_allParts.2 ⟨hg.resolve_lt d hd, hrange.le, hrange.right.le⟩
      have hfresh : (⟨q.grammar.resolve d, start, stop⟩ : Part) ∉ active := by
        simpa using hfresh
      have hnodup' := List.nodup_cons.2 ⟨hfresh, hnodup⟩
      have hactive' := List.forall_mem_cons.2 ⟨hpart, hactive⟩
      have hrest : partCount q.grammar.size (byteLength q.text) <
          fuel + (⟨q.grammar.resolve d, start, stop⟩ :: active).length := by
        rw [List.length_cons]
        omega
      have hrest' : partCount q.grammar.size (byteLength q.text) <
          fuel' + (⟨q.grammar.resolve d, start, stop⟩ :: active).length := by
        rw [List.length_cons]
        omega
      have hguide : q.Guide (fun _ _ => True) (fun _ => True) :=
        guide_trivial trivial fun _ => trivial
      have hguided := parse_guided hg hguide hnodup' hactive' hrest
      have hinner := ih hnodup' hactive' hrest hrest'
      rw [parseShape_congr hg hguided hinner hrange]

end Query

end Tessera
