/-
**The preferred split of a loop.**

The elements of a loop are found one after the other, and of all ways to go on the search takes the
first.  So the ends of the elements come first among all rows of ends that the loop allows, when they
are compared from left to right: a greedy loop prefers the shorter item, because it wants many, and an
empty one last; a lazy loop prefers the longer item; a possessive one has one end alone for each item.
This is so whatever the quantifier of the item itself is.  Separators keep to their own.

What a loop allows depends on the number of elements before, on where the next one begins and on
whether an empty separator stands before it.  An empty item is allowed only while items are missing; in
a loop with separators this holds for an item after an empty separator.  A loop ends as soon as it may.

Main definitions:

* `Tessera.Grammar.Trail` — ends of the elements of a loop, as the loop allows them;
* `Tessera.Series.Prefers` — which of two ends of an element is preferred;
* `Tessera.Grammar.PreferredLoop` — a split is the preferred one of its loop.

Main results:

* `Tessera.Query.plainExtend_first` — the elements of a loop are the first that it allows;
* `Tessera.resolve_preferredLoop` — **the split of a loop is the preferred one, at every depth**.
-/

import Tessera.Proofs.Search.Preference

set_option autoImplicit false

namespace Tessera

/-! ### Elements of a loop by number -/

/-- Which of two ends of an item of a loop is preferred, when it begins at `cursor`: the smaller one in a
greedy loop, with an empty item last, or else the larger one. -/
def Quantifier.PrefersItem : Quantifier → Nat → Nat → Nat → Prop
  | .greedy, cursor, e, f => e ≠ cursor ∧ (f = cursor ∨ e < f)
  | _, _, e, f => f < e

namespace Series

/-- Whether the element after `n` others is a separator. -/
def isSeparator (l : Series) (n : Nat) : Bool := l.separator.isSome && n % 2 == 1

/-- The number of items among the first `n` elements. -/
def items (l : Series) (n : Nat) : Nat := if l.separator.isSome then (n + 1) / 2 else n

/-- The loop may end after `n` elements, at the offset `cursor`: the range is used up, no separator
stands last, and the number of items is admitted. -/
structure IsComplete (l : Series) (stop n cursor : Nat) : Prop where
  atStop : cursor = stop
  afterItem : l.separator.isSome → n = 0 ∨ n % 2 = 1
  admits : l.repetition.admits (l.items n) = true

/-- An empty item is there only while items are missing, in a loop with separators if the separator
before it is empty as well. -/
def Useful (l : Series) (n : Nat) (afterEmpty : Bool) (cursor e : Nat) : Prop :=
  e = cursor → l.isSeparator n = false → l.separator = none ∨ afterEmpty = true →
    l.items n < l.repetition.min

/-- The quantifier of the element after `n` others: a separator has its own, and the items have that of
the loop. -/
def quantifier (l : Series) (g : Grammar) (n : Nat) : Quantifier :=
  if l.isSeparator n then g.itemQuantifier (l.definition n) else l.repetition.quantifier

/-- Which of two ends of the element after `n` others is preferred, when it begins at `cursor`. -/
def Prefers (l : Series) (g : Grammar) (n cursor e f : Nat) : Prop :=
  if l.isSeparator n then (g.itemQuantifier (l.definition n)).Prefers e f
  else l.repetition.quantifier.PrefersItem cursor e f

/-- Between two items there is a further one. -/
theorem items_lt {l : Series} {m n : Nat} (hm : l.separator.isSome → m = 0 ∨ m % 2 = 1)
    (hn : l.separator.isSome → n = 0 ∨ n % 2 = 1) (h : m < n) : l.items m < l.items n := by
  rw [items, items]
  by_cases hseparator : l.separator.isSome = true
  · rw [if_pos hseparator, if_pos hseparator]
    have := hm hseparator
    have := hn hseparator
    omega
  · rwa [if_neg hseparator, if_neg hseparator]

end Series

/-- The ends of the elements of a loop after `n` others, from `cursor` to `stop`.  `afterEmpty` says
whether an empty separator stands before.  Each element is accepted by its definition, and the loop ends
as soon as it may. -/
def Grammar.Trail (g : Grammar) (text : Text) (l : Series) (stop : Nat) :
    Nat → Bool → Nat → List Nat → Prop
  | n, _, cursor, [] => l.IsComplete stop n cursor
  | n, afterEmpty, cursor, e :: ends =>
      ¬ l.IsComplete stop n cursor ∧
      g.MayEnd text (l.quantifier g n) (l.definition n) cursor stop e ∧
      l.Useful n afterEmpty cursor e ∧
      Trail g text l stop (n + 1) (l.isSeparator n && e == cursor) e ends

/-! ### Points of a loop by number -/

namespace LoopPlan

variable (p : LoopPlan) (trail : List Split) {cursor e : Nat}

/-- The split of a loop keeps its elements. -/
theorem toSplit_injective : Function.Injective p.toSplit := by
  intro elements elements' h
  rw [toSplit, toSplit] at h
  split at h
  · obtain ⟨-, hitems, hseparators⟩ := Split.separated.inj h
    rw [← interleave_items_separators elements, hitems, hseparators, interleave_items_separators]
  · exact (Split.loop.inj h).2

theorem expectsSeparator_eq : p.expectsSeparator trail = p.series.isSeparator trail.length := rfl

theorem count_eq : p.count trail = p.series.items trail.length := rfl

/-- A separator stands last after an even number of elements. -/
theorem endsWithSeparator_iff : p.endsWithSeparator trail = true ↔
    p.separator.isSome ∧ trail.length ≠ 0 ∧ trail.length % 2 ≠ 1 := by
  simp only [endsWithSeparator, expectsSeparator, Bool.and_eq_true, Bool.not_eq_true',
    Bool.and_eq_false_iff, beq_eq_false_iff_ne, List.isEmpty_eq_false_iff, ne_eq,
    List.length_eq_zero_iff]
  constructor
  · rintro ⟨⟨hsep, hne⟩, hnone | hodd⟩
    · rw [hsep] at hnone; cases hnone
    · exact ⟨hsep, hne, hodd⟩
  · rintro ⟨hsep, hne, hodd⟩
    exact ⟨⟨hsep, hne⟩, .inr hodd⟩

theorem isComplete_iff :
    p.isComplete trail cursor = true ↔ p.series.IsComplete p.stop trail.length cursor := by
  have hends := p.endsWithSeparator_iff trail
  rw [isComplete, Bool.and_eq_true, Bool.and_eq_true, beq_iff_eq, Bool.not_eq_true',
    ← Bool.not_eq_true, hends]
  constructor
  · rintro ⟨⟨hstop, hends⟩, hadmits⟩
    refine ⟨hstop, fun hsep => ?_, hadmits⟩
    have hsep : p.separator.isSome := hsep
    by_contra hne
    exact hends ⟨hsep, fun h => hne (.inl h), fun h => hne (.inr h)⟩
  · rintro ⟨hstop, hafter, hadmits⟩
    refine ⟨⟨hstop, ?_⟩, hadmits⟩
    rintro ⟨hsep, hne, hodd⟩
    exact (hafter hsep).elim hne hodd

/-- No separator stands last before the first element. -/
theorem endsWithEmptySeparator_nil : p.endsWithEmptySeparator [] = false := by
  simp [endsWithEmptySeparator, endsWithSeparator]

/-- An empty separator stands last after an element when it is one. -/
theorem endsWithEmptySeparator_cons {part : Split} (hspan : part.span = ⟨cursor, e⟩) :
    p.endsWithEmptySeparator (part :: trail) =
      (p.series.isSeparator trail.length && e == cursor) := by
  have hempty : part.isEmpty = (e == cursor) := by
    rw [Split.isEmpty, hspan, Bool.beq_comm]
  have hends : p.endsWithSeparator (part :: trail) = p.series.isSeparator trail.length := by
    rw [Bool.eq_iff_iff, endsWithSeparator_iff]
    simp only [Series.isSeparator, series, List.length_cons, Bool.and_eq_true, beq_iff_eq]
    refine and_congr_right fun _ => ?_
    omega
  rw [endsWithEmptySeparator, hends, List.head?_cons, Option.any_some, hempty]

/-- No separator follows an empty separator. -/
theorem isSeparator_of_endsWithEmptySeparator (h : p.endsWithEmptySeparator trail = true) :
    p.series.isSeparator trail.length = false := by
  rw [endsWithEmptySeparator, Bool.and_eq_true, endsWithSeparator_iff] at h
  simp [Series.isSeparator, h.1.2.2]

theorem isUseful_iff (h : cursor ≤ e) : p.isUseful trail cursor e = true ↔
    p.series.Useful trail.length (p.endsWithEmptySeparator trail) cursor e := by
  have hitem : p.separator = none ∨ p.endsWithEmptySeparator trail = true →
      p.series.isSeparator trail.length = false := by
    rintro (hnone | hafter)
    · simp [Series.isSeparator, series, hnone]
    · exact p.isSeparator_of_endsWithEmptySeparator trail hafter
  have hskip : (p.separator.isSome && !p.endsWithEmptySeparator trail) = true ↔
      ¬ (p.separator = none ∨ p.endsWithEmptySeparator trail = true) := by
    rw [Bool.and_eq_true, Bool.not_eq_true', ← Bool.not_eq_true, Option.isSome_iff_ne_none,
      not_or]
  rw [isUseful, Bool.if_true_left, Bool.or_eq_true, decide_eq_true_eq, hskip, Bool.or_eq_true,
    decide_eq_true_eq, belowMin, decide_eq_true_eq]
  constructor
  · rintro (hskip | hlt | hbelow) heq - hafter
    · exact absurd hafter hskip
    · omega
    · exact hbelow
  · intro huseful
    by_cases hafter : p.separator = none ∨ p.endsWithEmptySeparator trail = true
    · rcases Nat.eq_or_lt_of_le h with heq | hlt
      · exact .inr (.inr (huseful heq.symm (hitem hafter) hafter))
      · exact .inr (.inl hlt)
    · exact .inl hafter

/-! ### The order of the candidates -/

variable {p : LoopPlan} {ends : List Nat}

/-- A lazy loop tries the larger ends of an item first, as a greedy item does. -/
theorem itemOrder_lazy (h : p.repetition.quantifier = .lazy) :
    p.itemOrder cursor ends = Quantifier.greedy.order ends := by
  simp only [itemOrder, h]

theorem itemOrder_possessive (h : p.repetition.quantifier = .possessive) :
    p.itemOrder cursor ends = Quantifier.possessive.order ends := by
  simp only [itemOrder, h]

/-- The items of a possessive loop have the largest end alone. -/
theorem mem_itemOrder_iff (h : Ascending cursor ends) : e ∈ p.itemOrder cursor ends ↔
    e ∈ ends ∧ (p.repetition.quantifier = .possessive → IsGreatest {f | f ∈ ends} e) := by
  cases hquantifier : p.repetition.quantifier with
  | greedy =>
      rw [itemOrder_greedy hquantifier h, List.mem_append, List.mem_filter, List.mem_filter]
      by_cases he : e = cursor <;> simp [he]
  | lazy =>
      rw [itemOrder_lazy hquantifier, Quantifier.mem_order_iff h.pairwise]
      simp
  | possessive =>
      rw [itemOrder_possessive hquantifier, Quantifier.mem_order_iff h.pairwise]

theorem itemOrder_pairwise (h : Ascending cursor ends) :
    (p.itemOrder cursor ends).Pairwise (p.repetition.quantifier.PrefersItem cursor) := by
  cases hquantifier : p.repetition.quantifier with
  | greedy =>
      rw [itemOrder_greedy hquantifier h, List.pairwise_append]
      refine ⟨?_, ?_, fun e he f hf => ⟨?_, .inl ?_⟩⟩
      · refine (h.pairwise.filter _).imp_of_mem fun he _ hlt => ⟨?_, .inr hlt⟩
        simpa using (List.mem_filter.1 he).2
      · have hsame : ∀ e ∈ ends.filter (· == cursor), e = cursor := fun e he => by
          simpa using (List.mem_filter.1 he).2
        refine (h.pairwise.filter _).imp_of_mem fun he hf hlt => ?_
        have := hsame _ he
        have := hsame _ hf
        omega
      · simpa using (List.mem_filter.1 he).2
      · simpa using (List.mem_filter.1 hf).2
  | lazy =>
      have horder : (Quantifier.greedy.order ends).Pairwise Quantifier.greedy.Prefers :=
        Quantifier.order_pairwise h.pairwise
      rwa [itemOrder_lazy hquantifier]
  | possessive =>
      have horder : (Quantifier.possessive.order ends).Pairwise Quantifier.possessive.Prefers :=
        Quantifier.order_pairwise h.pairwise
      rwa [itemOrder_possessive hquantifier]

end LoopPlan

namespace Query

variable {g : Grammar} {text : Text} (hg : g.Valid) {p : LoopPlan}
  (hfollows : ∀ trail, p.follows trail = .everywhere) {trail : List Split} {cursor e : Nat}
include hg hfollows

/-- The candidates of an element are the ends of its prefixes that bring the loop forward or are
needed, and only the largest one in a possessive loop. -/
theorem mem_loopEnds_iff : e ∈ (g.query text).loopEnds p trail cursor ↔
    e ∈ (g.query text).allEnds (p.series.definition trail.length) cursor p.stop ∧
    (p.series.quantifier g trail.length = .possessive → IsGreatest
      {f | f ∈ (g.query text).allEnds (p.series.definition trail.length) cursor p.stop} e) ∧
    p.series.Useful trail.length (p.endsWithEmptySeparator trail) cursor e := by
  have hascending := Query.allEnds_ascending (q := g.query text) hg
    (p.series.definition trail.length) cursor p.stop
  rw [loopEnds, hfollows, filter_everywhere, List.mem_filter, p.element_eq, p.expectsSeparator_eq,
    ← and_assoc, Series.quantifier]
  have hmem : (e ∈ if p.series.isSeparator trail.length = true then
        (g.query text).ends (p.series.definition trail.length) cursor p.stop
      else p.itemOrder cursor
        ((g.query text).allEnds (p.series.definition trail.length) cursor p.stop)) ↔
      e ∈ (g.query text).allEnds (p.series.definition trail.length) cursor p.stop ∧
      ((if p.series.isSeparator trail.length = true then
          g.itemQuantifier (p.series.definition trail.length)
        else p.series.repetition.quantifier) = .possessive → IsGreatest
        {f | f ∈ (g.query text).allEnds (p.series.definition trail.length) cursor p.stop} e) := by
    split
    · exact Quantifier.mem_order_iff hascending.pairwise
    · exact LoopPlan.mem_itemOrder_iff hascending
  rw [hmem]
  exact and_congr_right fun h => p.isUseful_iff trail (hascending.le e h.1)

/-- The candidates of an element are tried in the order in which they are preferred. -/
theorem loopEnds_pairwise :
    ((g.query text).loopEnds p trail cursor).Pairwise (p.series.Prefers g trail.length cursor) := by
  have hascending := Query.allEnds_ascending (q := g.query text) hg
    (p.series.definition trail.length) cursor p.stop
  rw [loopEnds, hfollows, filter_everywhere, p.element_eq, p.expectsSeparator_eq]
  refine List.Pairwise.filter _ ?_
  by_cases hseparator : p.series.isSeparator trail.length = true
  · rw [if_pos hseparator]
    exact (Quantifier.order_pairwise hascending.pairwise).imp fun h => by
      rwa [Series.Prefers, if_pos hseparator]
  · rw [if_neg hseparator]
    exact (LoopPlan.itemOrder_pairwise hascending).imp fun h => by
      rwa [Series.Prefers, if_neg hseparator]

end Query

/-! ### Ends that a loop allows -/

namespace Grammar.Trail

variable {g : Grammar} {text : Text} {l : Series} {stop n : Nat} {afterEmpty : Bool} {cursor : Nat}
  {ends : List Nat}

/-- After the last element the loop may end. -/
theorem complete (h : g.Trail text l stop n afterEmpty cursor ends) :
    ∃ last, l.IsComplete stop (n + ends.length) last := by
  induction ends generalizing n afterEmpty cursor with
  | nil => exact ⟨cursor, h⟩
  | cons e ends ih =>
      obtain ⟨last, hlast⟩ := ih h.2.2.2
      exact ⟨last, by rwa [List.length_cons, Nat.add_comm ends.length, ← Nat.add_assoc]⟩

theorem isRange (h : g.Trail text l stop n afterEmpty cursor ends)
    (hcursor : IsBoundary text cursor) : IsRange text cursor stop := by
  induction ends generalizing n afterEmpty cursor with
  | nil =>
      obtain rfl : cursor = stop := Series.IsComplete.atStop h
      exact ⟨Nat.le_refl _, hcursor, hcursor⟩
  | cons e ends ih =>
      obtain ⟨-, hend, -, hrest⟩ := h
      have hright := ih hrest hend.range.right
      exact ⟨hend.range.le.trans hright.le, hcursor, hright.right⟩

/-- Where an element follows, the loop has room for it: it ends after an item, so another item is still
to come. -/
theorem room {p : LoopPlan} {trail : List Split} {e : Nat}
    (h : g.Trail text p.series p.stop trail.length afterEmpty cursor (e :: ends)) :
    p.isFull trail = false := by
  obtain ⟨last, -, hafter, hadmits⟩ := h.complete
  rw [LoopPlan.isFull, Bool.and_eq_false_iff, Bool.not_eq_false', LoopPlan.endsWithSeparator_iff,
    or_iff_not_imp_left, LoopPlan.count_eq]
  intro hends
  have hitem : p.series.separator.isSome → trail.length = 0 ∨ trail.length % 2 = 1 := by
    intro hseparator
    by_contra hne
    exact hends ⟨hseparator, fun h => hne (.inl h), fun h => hne (.inr h)⟩
  have hless := Series.items_lt hitem hafter (by rw [List.length_cons]; omega)
  cases hmax : p.repetition.max with
  | none => rfl
  | some max =>
      have hmax : p.series.repetition.max = some max := hmax
      simp only [Repetition.admits, hmax, Bool.and_eq_true, Option.all_some,
        decide_eq_true_eq] at hadmits
      rw [Option.any_some, decide_eq_false_iff_not]
      omega

end Grammar.Trail

namespace Query

open Grammar

section Loops

variable {g : Grammar} {text : Text} (hg : g.Valid) (hreg : g.Regular)
  (hlimit : g.limits.recursionLimit = none) {p : LoopPlan}
  (hlt : ∀ n, p.series.definition n < g.size) (hfollows : ∀ trail, p.follows trail = .everywhere)
include hg hlimit hlt hfollows

/-- The elements that a loop finds have ends that the loop allows. -/
theorem trail_of_plainExtend {fuel m : Nat} {trail : List Split} {cursor : Nat}
    (hrange : IsRange text cursor p.stop) {elements : List Split}
    (h : (g.query text).plainExtend ((g.query text).free fuel) p m trail cursor = some elements) :
    ∃ further, elements = trail.reverse ++ further ∧
      g.Trail text p.series p.stop trail.length (p.endsWithEmptySeparator trail) cursor
        (stops further) := by
  induction m generalizing trail cursor with
  | zero => cases h
  | succ m ih =>
      rw [plainExtend] at h
      split at h
      · next hcomplete =>
        obtain rfl := Option.some.inj h
        exact ⟨[], (List.append_nil _).symm, (p.isComplete_iff trail).1 hcomplete⟩
      next hcomplete =>
      split at h
      · cases h
      obtain ⟨e, he, h⟩ := List.exists_of_findSome?_eq_some h
      obtain ⟨part, hpart, h⟩ := Option.bind_eq_some_iff.1 h
      have hspan := free_span hpart
      obtain ⟨-, hright⟩ :=
        isRange_of_mem_allEnds (q := g.query text) hg hrange (mem_allEnds_of_loopEnds he)
      obtain ⟨further, rfl, htrail⟩ := ih hright h
      obtain ⟨hmem, hgreatest, huseful⟩ := (mem_loopEnds_iff hg hfollows).1 he
      rw [p.element_eq] at hpart
      refine ⟨part :: further, by simp, ?_⟩
      rw [stops_cons further hspan]
      rw [p.endsWithEmptySeparator_cons trail hspan, List.length_cons] at htrail
      exact ⟨fun h => hcomplete ((p.isComplete_iff trail).2 h),
        mayEnd_of_free hg hlimit (hlt _) hrange hmem hgreatest (Option.isSome_of_eq_some hpart),
        huseful, htrail⟩

include hreg

/-- **The elements of a loop are the first that it allows.** -/
theorem plainExtend_first {n : Nat} {afterEmpty : Bool} {cursor : Nat}
    (hcursor : IsBoundary text cursor) {ends : List Nat}
    (hends : g.Trail text p.series p.stop n afterEmpty cursor ends) :
    ∃ bound, ∀ fuel m, bound ≤ fuel → bound ≤ m → ∀ trail : List Split, trail.length = n →
      p.endsWithEmptySeparator trail = afterEmpty → ∃ further,
        (g.query text).plainExtend ((g.query text).free fuel) p m trail cursor =
          some (trail.reverse ++ further) ∧
        (ends = stops further ∨
          EndsBefore (p.series.Prefers g) n cursor (stops further) ends) := by
  induction ends generalizing n afterEmpty cursor with
  | nil =>
      refine ⟨1, fun fuel m _ hm trail hlength _ => ⟨[], ?_, .inl rfl⟩⟩
      subst hlength
      obtain ⟨m, rfl⟩ := Nat.exists_eq_add_of_le' hm
      rw [plainExtend, if_pos ((p.isComplete_iff trail).2 hends), List.append_nil]
  | cons f ends ih =>
      have hall := hends
      obtain ⟨hincomplete, hf, huseful, hrest⟩ := hends
      have hright := hrest.isRange hf.range.right
      obtain ⟨b, hb⟩ := hf.found hg hlimit (hlt n)
      obtain ⟨c, hc⟩ := ih hf.range.right hrest
      refine ⟨max b (c + 1), fun fuel m hfuel hm trail hlength hafter => ?_⟩
      subst hlength hafter
      obtain ⟨m, rfl⟩ : ∃ k, m = k + 1 := ⟨m - 1, by omega⟩
      obtain ⟨part, hpart⟩ := Option.isSome_iff_exists.1 (hb fuel (by omega))
      have hspan := free_span hpart
      obtain ⟨further, hfurther, hfirst⟩ := hc fuel m (by omega) (by omega) (part :: trail)
        List.length_cons (p.endsWithEmptySeparator_cons trail hspan)
      rw [← p.element_eq] at hpart
      -- the candidate `f` brings something, so the first that does comes no later
      have hmem : f ∈ (g.query text).loopEnds p trail cursor := (mem_loopEnds_iff hg hfollows).2
        ⟨hf.mem_allEnds hg hreg hlimit (hlt _) hright, hf.greatest, huseful⟩
      have hsome : (((g.query text).free fuel (p.element trail) cursor f).bind fun part =>
          (g.query text).plainExtend ((g.query text).free fuel) p m (part :: trail) f).isSome := by
        rw [hpart, Option.bind_some, hfurther]
        rfl
      obtain ⟨e, hmem', elements, helements, he, hbefore⟩ := findSome?_first
        (loopEnds_pairwise hg hfollows)
        (fun e => ((g.query text).free fuel (p.element trail) cursor e).bind fun part =>
          (g.query text).plainExtend ((g.query text).free fuel) p m (part :: trail) e) hmem hsome
      obtain ⟨part', hpart', he⟩ := Option.bind_eq_some_iff.1 he
      have hspan' := free_span hpart'
      obtain ⟨-, hright'⟩ := isRange_of_mem_allEnds (q := g.query text) hg
        (hall.isRange hcursor) (mem_allEnds_of_loopEnds hmem')
      obtain ⟨further', rfl, -⟩ := trail_of_plainExtend hg hlimit hlt hfollows hright' he
      refine ⟨part' :: further', ?_, ?_⟩
      · have hsplit : (part' :: trail).reverse ++ further' = trail.reverse ++ part' :: further' := by
          simp
        rw [plainExtend, if_neg fun h => hincomplete ((p.isComplete_iff trail).1 h),
          if_neg (by rw [hall.room]; exact Bool.false_ne_true), ← hsplit]
        exact helements
      rw [stops_cons further' hspan']
      rcases hbefore with rfl | hprefers
      · obtain rfl := Option.some.inj (hpart.symm.trans hpart')
        obtain rfl := List.append_cancel_left (Option.some.inj (hfurther.symm.trans he))
        rcases hfirst with rfl | hfirst
        · exact .inl rfl
        · exact .inr (.next hfirst)
      · exact .inr (.here hprefers)

/-- What a loop finds with any large amount of fuel is the first that it allows. -/
theorem isFirst_of_plainLoop (hrange : IsRange text p.start p.stop) {s : Split} {bound : Nat}
    (h : ∀ fuel, bound ≤ fuel →
      (g.query text).plainLoop ((g.query text).free fuel) p fuel = some s) :
    ∃ elements, p.toSplit elements = s ∧
      IsFirst (g.Trail text p.series p.stop 0 false p.start)
        (EndsBefore (p.series.Prefers g) 0 p.start) (stops elements) := by
  obtain ⟨elements, helements, hs⟩ := Option.map_eq_some_iff.1 (h bound (Nat.le_refl _))
  refine ⟨elements, hs, ?_, fun ends hends => ?_⟩
  · obtain ⟨further, rfl, htrail⟩ :=
      trail_of_plainExtend hg hlimit hlt hfollows hrange helements
    rwa [p.endsWithEmptySeparator_nil] at htrail
  · obtain ⟨bound', hbound'⟩ := plainExtend_first hg hreg hlimit hlt hfollows hrange.left hends
    obtain ⟨further, hfurther, hfirst⟩ := hbound' (max bound bound') (max bound bound')
      (Nat.le_max_right _ _) (Nat.le_max_right _ _) [] rfl p.endsWithEmptySeparator_nil
    -- the elements are the same with enough fuel for the other ends
    obtain ⟨elements', helements', hs'⟩ := Option.map_eq_some_iff.1 (h _ (Nat.le_max_left _ _))
    obtain rfl := p.toSplit_injective (hs.trans hs'.symm)
    obtain rfl := Option.some.inj (helements'.symm.trans hfurther)
    exact hfirst

end Loops

end Query

/-! ### Preferred splits of loops -/

namespace Grammar

/-- The elements of the split of a loop have the first ends that the loop allows. -/
def PreferredLoop (g : Grammar) (text : Text) (d : DefId) (s : Split) : Prop :=
  match g.shape d with
  | .loop item repetition => ∃ span items, s = .loop span items ∧
      IsFirst (g.Trail text ⟨item, none, repetition⟩ span.stop 0 false span.start)
        (EndsBefore (Series.Prefers ⟨item, none, repetition⟩ g) 0 span.start) (stops items)
  | .separated item separator _ repetition => ∃ span items separators,
      s = .separated span items separators ∧
      IsFirst (g.Trail text ⟨item, some separator, repetition⟩ span.stop 0 false span.start)
        (EndsBefore (Series.Prefers ⟨item, some separator, repetition⟩ g) 0 span.start)
        (stops (interleave items separators))
  | _ => True

section Repeats

variable {g : Grammar} {d item : DefId} {separator : Option DefId} {r : Repetition}
  (hshape : g.Repeats d item separator r)
include hshape

/-- A loop is searched for as a loop, with separators or without. -/
theorem Repeats.plainShape_eq {text : Text} {parse : PlainParse} {fuel start stop : Nat} :
    (g.query text).plainShape parse fuel d start stop = (g.query text).plainLoop parse
      ((g.query text).loopPlan d item separator r start stop) fuel := by
  cases separator with
  | none =>
      have hshape : g.shape d = .loop item r := hshape
      rw [Query.plainShape, hshape]
  | some separator =>
      obtain ⟨default, hshape⟩ := hshape
      rw [Query.plainShape, hshape]

/-- The elements of a loop are definitions of the grammar. -/
theorem Repeats.definition_lt (hg : g.Valid) (n : Nat) :
    Series.definition ⟨item, separator, r⟩ n < g.size := by
  cases separator with
  | none =>
      have hshape : g.shape d = .loop item r := hshape
      exact hg.references_shape (d := d) (by rw [hshape]; exact List.mem_singleton_self _)
  | some separator =>
      obtain ⟨default, hshape⟩ := hshape
      have hitem := hg.references_shape (d := d) (e := item)
      have hseparator := hg.references_shape (d := d) (e := separator)
      rw [hshape] at hitem hseparator
      change (if n % 2 = 1 then separator else item) < g.size
      split
      · exact hseparator (List.mem_cons_of_mem _ (List.mem_singleton_self _))
      · exact hitem List.mem_cons_self

end Repeats

variable {g : Grammar} (hg : g.Valid) (hreg : g.Regular)
  (hlimit : g.limits.recursionLimit = none) {text : Text} {d : DefId}
include hg hreg hlimit

/-- The elements of the split that the free search finds are the first that the loop allows. -/
theorem Finds.elements {s : Split} (h : g.Finds text d s) {item : DefId}
    {separator : Option DefId} {r : Repetition} (hshape : g.Repeats d item separator r) :
    ∃ elements, LoopPlan.toSplit
        ((g.query text).loopPlan d item separator r s.span.start s.span.stop) elements = s ∧
      IsFirst (g.Trail text ⟨item, separator, r⟩ s.span.stop 0 false s.span.start)
        (EndsBefore (Series.Prefers ⟨item, separator, r⟩ g) 0 s.span.start) (stops elements) := by
  obtain ⟨bound, hbound⟩ := h.shape
  refine Query.isFirst_of_plainLoop
    (p := (g.query text).loopPlan d item separator r s.span.start s.span.stop) hg hreg hlimit
    (hshape.definition_lt hg)
    (Query.loopFollows_unpruned (q := g.query text) rfl d item separator r _ _) h.range
    fun fuel (hfuel : bound ≤ fuel) => ?_
  rw [← hshape.plainShape_eq]
  exact hbound fuel hfuel

/-- What the free search finds is preferred. -/
theorem Finds.preferredLoop {s : Split} (h : g.Finds text d s) : g.PreferredLoop text d s := by
  rw [PreferredLoop]
  split
  · next item r hshape =>
    have hrepeats : g.Repeats d item none r := hshape
    obtain ⟨elements, hs, hfirst⟩ := h.elements hg hreg hlimit hrepeats
    exact ⟨s.span, elements, hs.symm, hfirst⟩
  · next item separator default r hshape =>
    have hrepeats : g.Repeats d item (some separator) r := ⟨default, hshape⟩
    obtain ⟨elements, hs, hfirst⟩ := h.elements hg hreg hlimit hrepeats
    refine ⟨s.span, LoopPlan.items elements, LoopPlan.separators elements, hs.symm, ?_⟩
    rwa [LoopPlan.interleave_items_separators]
  · trivial

end Grammar

/-! ### Whole texts -/

section Whole

variable {g : Grammar} (hg : g.Valid) (hreg : g.Regular)
  (hlimit : g.limits.recursionLimit = none) {d : DefId} (hd : d < g.size) {text : Text}
include hg hreg hlimit hd

/-- A loop accepts a text when it allows a row of ends. -/
theorem accepts_loop_iff {item : DefId} {separator : Option DefId} {r : Repetition}
    (hshape : g.Repeats d item separator r) : g.Accepts d text ↔
      ∃ ends, g.Trail text ⟨item, separator, r⟩ (byteLength text) 0 false 0 ends := by
  have hlt := hshape.definition_lt hg
  let p := (g.query text).loopPlan d item separator r 0 (byteLength text)
  have hfollows := Query.loopFollows_unpruned (q := g.query text) rfl d item separator r 0
    (byteLength text)
  simp only [Grammar.accepts_iff_shape hg hlimit hd, hshape.plainShape_eq, Query.plainLoop,
    Option.isSome_map]
  constructor
  · rintro ⟨fuel, hfuel⟩
    obtain ⟨elements, helements⟩ := Option.isSome_iff_exists.1 hfuel
    obtain ⟨further, -, htrail⟩ := Query.trail_of_plainExtend (p := p) hg hlimit hlt hfollows
      (IsRange.whole text) helements
    rw [p.endsWithEmptySeparator_nil] at htrail
    exact ⟨_, htrail⟩
  · rintro ⟨ends, hends⟩
    obtain ⟨bound, hbound⟩ := Query.plainExtend_first (p := p) hg hreg hlimit hlt hfollows
      (isBoundary_zero text) hends
    obtain ⟨further, hfurther, -⟩ :=
      hbound bound bound (Nat.le_refl _) (Nat.le_refl _) [] rfl p.endsWithEmptySeparator_nil
    exact ⟨bound, Option.isSome_of_eq_some hfurther⟩

end Whole

/-- **The split of a loop is the preferred one, at every depth**, when the engine keeps its laws, no
pattern has a condition on a position, the nesting is not limited and nothing is refused, as in a
grammar without left recursion.  No other row of ends that the loop allows comes before the ends of its
elements.  A text of a loop is rejected only when the loop allows no row of ends. -/
theorem resolve_preferredLoop {draft : Draft} {g : Grammar} (hbuild : draft.build = .ok g)
    (hlawful : g.engine.Lawful) (hfree : g.LookFree) (hlimit : g.limits.recursionLimit = none)
    {d : DefId} (hd : d < g.size) (text : Text)
    (hcalm : g.refusals d text = 0 ∨ ¬ g.LeftRecursive) :
    (∀ split, (resolve g d text).result = .ok split →
      ∀ u e, split.Inside g d u e → g.PreferredLoop text e u) ∧
    (∀ item separator r, g.Repeats d item separator r → (g.Accepts d text ↔
      ∃ ends, g.Trail text ⟨item, separator, r⟩ (byteLength text) 0 false 0 ends)) ∧
    (g.Accepts d text ∨ ∃ r, (resolve g d text).result = .error (.rejected r)) := by
  have hg := Draft.build_valid hbuild
  have hreg : g.Regular := ⟨hlawful, hfree⟩
  refine ⟨fun split h u e hinside => ?_, fun item separator r hshape => ?_,
    resolve_ok_or_rejected hg hlimit hd text⟩
  · exact ((finds_of_resolve hg hreg hlimit hd hcalm h).inside hg hinside).preferredLoop hg hreg
      hlimit
  · exact accepts_loop_iff hg hreg hlimit hd hshape

/-- A letter, a block of letters, and a greedy and a lazy row of blocks. -/
def blockRules : Array Rule :=
  #[.literal ['a'], .loop 0 ⟨1, none, .greedy⟩, .loop 1 ⟨0, none, .greedy⟩,
    .loop 1 ⟨0, none, .lazy⟩]

/-- The draft of the blocks. -/
def blockDraft : Draft := ⟨blockRules.map some, .empty, {}, .standard⟩

/-- The grammar of the blocks. -/
def blockGrammar : Grammar where
  rules := blockRules
  resolved := #[0, 1, 2, 3]
  names := .empty
  limits := {}
  engine := .standard
  acceptors := Acceptors.ofRules .standard blockRules {} #[none, none, none, none]

theorem blockDraft_build : blockDraft.build = .ok blockGrammar := by with_unfolding_all rfl

/-- No block is a pattern. -/
theorem blockGrammar_lookFree : blockGrammar.LookFree :=
  Grammar.lookFree_of_rules (by simp [blockGrammar, blockRules])

theorem blockGrammar_not_leftRecursive : ¬ blockGrammar.LeftRecursive :=
  (Draft.build_valid blockDraft_build).not_leftRecursive (by decide)

/-- Two letters as two blocks. -/
def blockSplit : Split :=
  .loop ⟨0, 2⟩ [.loop ⟨0, 1⟩ [.leaf ⟨0, 1⟩], .loop ⟨1, 2⟩ [.leaf ⟨1, 2⟩]]

set_option maxRecDepth 10000 in
theorem backtrackRun_block : (blockGrammar.query ['a', 'a']).backtrackRun 2 = .ok blockSplit := by
  with_unfolding_all rfl

theorem resolve_block : (resolve blockGrammar 2 ['a', 'a']).result = .ok blockSplit :=
  (resolve_ok_iff_backtrackRun (Draft.build_valid blockDraft_build)
    ⟨Engine.standard_lawful, blockGrammar_lookFree⟩ rfl (by decide)).2 backtrackRun_block

/-- In a greedy row of blocks, two letters are two blocks, though each block takes what it can. -/
theorem resolve_preferredLoop_block :
    blockDraft.build = .ok blockGrammar ∧ blockGrammar.LookFree ∧ ¬ blockGrammar.LeftRecursive ∧
      (resolve blockGrammar 2 ['a', 'a']).result = .ok blockSplit ∧
      blockGrammar.PreferredLoop ['a', 'a'] 2 blockSplit := by
  have hpreferred := (resolve_preferredLoop blockDraft_build Engine.standard_lawful
    blockGrammar_lookFree rfl (d := 2) (by decide) ['a', 'a']
    (.inr blockGrammar_not_leftRecursive)).1 blockSplit resolve_block
  exact ⟨blockDraft_build, blockGrammar_lookFree, blockGrammar_not_leftRecursive, resolve_block,
    hpreferred _ _ .whole⟩

end Tessera
