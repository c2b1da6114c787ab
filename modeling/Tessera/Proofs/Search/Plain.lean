/-
**The plain search.**

This is the search without a memory: candidates are tried in the same order and left out by the same
filters, but nothing that failed is remembered, neither parts nor items and cursors of a sequence nor
points of a loop.  The only guard left is that a part is not entered inside of itself.  Without even
that guard the search is called *free*.

Both are functions of a fuel that bounds the nesting and the length of loops; what runs out of fuel
counts as rejected.  A result that all larger amounts of fuel agree on is a result of the search
proper.

Main definitions:

* `Tessera.Query.plain` — the plain search;
* `Tessera.Query.free` — the plain search without a guard;
* `Tessera.Query.exhaustive` — the same query without pruning.

Main results:

* `Tessera.Query.plainShape_mono` — parts that accept more make a whole that accepts more;
* `Tessera.Query.plain_le_free` — what the plain search accepts, the free search accepts;
* `Tessera.Query.plain_le_of_wider` — what is accepted with pruning is accepted without.
-/

import Tessera.Search.Resolve

set_option autoImplicit false

namespace Tessera

/-- A search for a split without a state. -/
abbrev PlainParse : Type := DefId → Nat → Nat → Option Split

namespace Query

/-! ### The search without a memory -/

/-- Distributes the range from `cursor` to `stop` over items; the first of them has number `k`. -/
def plainSequence (q : Query) (parse : PlainParse) (stop : Nat) (follows : Array Filter) :
    List DefId → Nat → Nat → Option (List Split)
  | [], _, cursor => if cursor = stop then some [] else none
  | item :: items, k, cursor =>
      ((q.ends item cursor stop).filter (follows.getD (k + 1) .everywhere).allows).findSome?
        fun e =>
          (parse item cursor e).bind fun part =>
            (plainSequence q parse stop follows items (k + 1) e).map (part :: ·)

/-- The first of several alternatives that accepts the whole range. -/
def plainChoice (q : Query) (parse : PlainParse) (start stop : Nat) :
    List DefId → Nat → Option Split
  | [], _ => none
  | alternative :: alternatives, index =>
      ((if q.prune && !q.grammar.feasible alternative (q.slice start stop) then none
        else parse alternative start stop).map (.choice ⟨start, stop⟩ index)).or
        (plainChoice q parse start stop alternatives (index + 1))

/-- Searches for the elements of a loop that follow those of `trail`, which ends at `cursor`. -/
def plainExtend (q : Query) (parse : PlainParse) (p : LoopPlan) :
    Nat → List Split → Nat → Option (List Split)
  | 0, _, _ => none
  | fuel + 1, trail, cursor =>
      if p.isComplete trail cursor then some trail.reverse
      else if p.isFull trail then none
      else
        (q.loopEnds p trail cursor).findSome? fun e =>
          (parse (p.element trail) cursor e).bind fun part =>
            plainExtend q parse p fuel (part :: trail) e

/-- The split of a loop. -/
def plainLoop (q : Query) (parse : PlainParse) (p : LoopPlan) (fuel : Nat) : Option Split :=
  (q.plainExtend parse p fuel [] p.start).map p.toSplit

/-- A leaf over a range, if it fits. -/
def plainLeaf (start stop : Nat) (fits : Bool) : Option Split :=
  if fits then some (.leaf ⟨start, stop⟩) else none

/-- Tries the structural rule of a definition on a range. -/
def plainShape (q : Query) (parse : PlainParse) (fuel : Nat) (d : DefId) (start stop : Nat) :
    Option Split :=
  match q.grammar.shape d with
  | .literal text => plainLeaf start stop (q.slice start stop == text)
  | .pattern _ => plainLeaf start stop (q.grammar.leafMatches d (q.slice start stop))
  | .empty => plainLeaf start stop (start == stop)
  | .sequence items =>
      (q.plainSequence parse stop (q.sequenceFollows d items.length start stop) items 0 start).map
        (.sequence ⟨start, stop⟩)
  | .choice alternatives => q.plainChoice parse start stop alternatives 0
  | .optional item _ =>
      if start = stop then some (.absent ⟨start, stop⟩)
      else (parse item start stop).map (.present ⟨start, stop⟩)
  | .loop item repetition =>
      q.plainLoop parse (q.loopPlan d item none repetition start stop) fuel
  | .separated item separator _ repetition =>
      q.plainLoop parse (q.loopPlan d item (some separator) repetition start stop) fuel
  | .alias _ _ => none
  | .forward _ => none
  | .withDefault _ _ => none

/-- Tries a definition on a range, inside of the parts `active`. -/
def plain (q : Query) : Nat → List Part → PlainParse
  | 0, _, _, _, _ => none
  | fuel + 1, active, d, start, stop =>
      let part : Part := ⟨q.grammar.resolve d, start, stop⟩
      if active.contains part then none
      else q.plainShape (q.plain fuel (part :: active)) fuel d start stop

/-- Tries a definition on a range, with nothing around it. -/
def free (q : Query) : Nat → PlainParse
  | 0, _, _, _ => none
  | fuel + 1, d, start, stop => q.plainShape (q.free fuel) fuel d start stop

/-- The same query without pruning. -/
def exhaustive (q : Query) : Query := { q with prune := false }

end Query

/-! ### Spans -/

theorem toSplit_span (p : LoopPlan) (elements : List Split) :
    (p.toSplit elements).span = ⟨p.start, p.stop⟩ := by
  rw [LoopPlan.toSplit]
  split <;> rfl

namespace Query

variable {q : Query} {parse : PlainParse} {fuel : Nat}

theorem plainChoice_span {start stop : Nat} {alternatives : List DefId} {index : Nat} {s : Split}
    (h : q.plainChoice parse start stop alternatives index = some s) : s.span = ⟨start, stop⟩ := by
  induction alternatives generalizing index with
  | nil => simp [plainChoice] at h
  | cons a as ih =>
      rw [plainChoice, Option.or_eq_some_iff] at h
      rcases h with h | ⟨_, h⟩
      · obtain ⟨inner, _, rfl⟩ := Option.map_eq_some_iff.1 h
        rfl
      · exact ih h

/-- A split that is found carries the range that was searched. -/
theorem plainShape_span {d : DefId} {start stop : Nat} {s : Split}
    (h : q.plainShape parse fuel d start stop = some s) : s.span = ⟨start, stop⟩ := by
  have hleaf : ∀ fits, plainLeaf start stop fits = some s → s.span = ⟨start, stop⟩ := by
    intro fits hs
    simp only [plainLeaf, Option.ite_none_right_eq_some, Option.some.injEq] at hs
    rw [← hs.2]; rfl
  have hloop : ∀ p : LoopPlan, p.start = start → p.stop = stop →
      q.plainLoop parse p fuel = some s → s.span = ⟨start, stop⟩ := by
    rintro p rfl rfl hs
    obtain ⟨elements, _, rfl⟩ := Option.map_eq_some_iff.1 hs
    exact toSplit_span p elements
  rw [plainShape] at h
  split at h
  case h_1 => exact hleaf _ h
  case h_2 => exact hleaf _ h
  case h_3 => exact hleaf _ h
  case h_4 => obtain ⟨parts, _, rfl⟩ := Option.map_eq_some_iff.1 h; rfl
  case h_5 => exact plainChoice_span h
  case h_6 =>
      split at h
      · rw [← Option.some.inj h]; rfl
      · obtain ⟨inner, _, rfl⟩ := Option.map_eq_some_iff.1 h; rfl
  case h_7 => exact hloop _ rfl rfl h
  case h_8 => exact hloop _ rfl rfl h
  all_goals simp at h

end Query

/-! ### Points of a loop -/

namespace LoopPlan

variable {p p' : LoopPlan} {trail trail' : List Split} {cursor e : Nat}

/-- Whether the next element is a separator can be read off the point. -/
theorem expectsSeparator_congr (h : p.point trail cursor = p.point trail' cursor) :
    p.expectsSeparator trail = p.expectsSeparator trail' :=
  congrArg LoopPoint.expectsSeparator h

theorem isEmpty_congr (h : p.point trail cursor = p.point trail' cursor) :
    trail.isEmpty = trail'.isEmpty := by
  simpa [point] using congrArg LoopPoint.started h

theorem endsWithSeparator_congr (h : p.point trail cursor = p.point trail' cursor) :
    p.endsWithSeparator trail = p.endsWithSeparator trail' := by
  rw [endsWithSeparator, endsWithSeparator, isEmpty_congr h, expectsSeparator_congr h]

theorem endsWithEmptySeparator_congr (h : p.point trail cursor = p.point trail' cursor) :
    p.endsWithEmptySeparator trail = p.endsWithEmptySeparator trail' :=
  congrArg LoopPoint.afterEmptySeparator h

/-- The numbers of items agree, or there is no largest number and both suffice. -/
theorem count_congr (h : p.point trail cursor = p.point trail' cursor) :
    p.count trail = p.count trail' ∨
      p.repetition.max = none ∧ p.repetition.min ≤ p.count trail ∧
        p.repetition.min ≤ p.count trail' := by
  have hc := congrArg LoopPoint.count h
  simp only [point] at hc
  cases hmax : p.repetition.max with
  | some max => simp only [hmax] at hc; exact .inl hc
  | none =>
      simp only [hmax, Nat.min_def] at hc
      split at hc <;> split at hc <;> simp <;> omega

theorem belowMin_congr (h : p.point trail cursor = p.point trail' cursor) :
    p.belowMin trail = p.belowMin trail' := by
  have := count_congr h
  rw [belowMin, belowMin, decide_eq_decide]
  omega

theorem isComplete_congr (h : p.point trail cursor = p.point trail' cursor) :
    p.isComplete trail cursor = p.isComplete trail' cursor := by
  have hadmits : p.repetition.admits (p.count trail) = p.repetition.admits (p.count trail') := by
    rcases count_congr h with hc | ⟨hmax, hle, hle'⟩
    · rw [hc]
    · simp [Repetition.admits, hmax, hle, hle']
  rw [isComplete, isComplete, endsWithSeparator_congr h, hadmits]

theorem isFull_congr (h : p.point trail cursor = p.point trail' cursor) :
    p.isFull trail = p.isFull trail' := by
  have hmax : (p.repetition.max.any fun max => decide (max ≤ p.count trail)) =
      p.repetition.max.any fun max => decide (max ≤ p.count trail') := by
    rcases count_congr h with hc | ⟨hmax, _⟩
    · rw [hc]
    · simp [hmax]
  rw [isFull, isFull, endsWithSeparator_congr h, hmax]

theorem element_congr (h : p.point trail cursor = p.point trail' cursor) :
    p.element trail = p.element trail' := by
  rw [element, element, expectsSeparator_congr h]

theorem isUseful_congr (h : p.point trail cursor = p.point trail' cursor) :
    p.isUseful trail cursor e = p.isUseful trail' cursor e := by
  rw [isUseful, isUseful, endsWithEmptySeparator_congr h, belowMin_congr h]

theorem follows_congr (h : p.point trail cursor = p.point trail' cursor) :
    p.follows trail = p.follows trail' := by
  rw [follows, follows, expectsSeparator_congr h]

/-- The next point depends on the point and on the range of the next element alone. -/
theorem point_cons_congr (h : p.point trail cursor = p.point trail' cursor) {s s' : Split}
    (hs : s'.span = s.span) : p.point (s :: trail) e = p.point (s' :: trail') e := by
  have hempty : s'.isEmpty = s.isEmpty := by rw [Split.isEmpty, Split.isEmpty, hs]
  have hexpects := expectsSeparator_congr h
  have hcount := count_congr h
  simp only [expectsSeparator, count] at hexpects hcount
  cases hsep : p.separator with
  | none =>
      simp only [hsep, Option.isSome_none, Bool.false_eq_true, if_false] at hcount
      simp only [point, expectsSeparator, endsWithEmptySeparator, endsWithSeparator, count, hsep,
        List.isEmpty_cons, List.length_cons, Option.isSome_none, Bool.false_and, LoopPoint.mk.injEq,
        Bool.false_eq_true, if_false, true_and]
      cases hmax : p.repetition.max with
      | some max => simp only [hmax] at hcount ⊢; simp at hcount; omega
      | none => simp only [Nat.min_def]; split <;> split <;> omega
  | some separator =>
      simp only [hsep, Option.isSome_some, Bool.true_and, if_true] at hexpects hcount
      have hparity : trail.length % 2 = trail'.length % 2 := by
        have := Nat.mod_two_eq_zero_or_one trail.length
        have := Nat.mod_two_eq_zero_or_one trail'.length
        rcases this with h₁ | h₁ <;> rcases Nat.mod_two_eq_zero_or_one trail.length with h₂ | h₂ <;>
          simp_all
      have hnext : ((s :: trail).length % 2 == 1) = ((s' :: trail').length % 2 == 1) := by
        simp only [List.length_cons]
        have : (trail.length + 1) % 2 = (trail'.length + 1) % 2 := by omega
        rw [this]
      simp only [point, expectsSeparator, endsWithEmptySeparator, endsWithSeparator, count, hsep,
        List.isEmpty_cons, Option.isSome_some, Bool.true_and, LoopPoint.mk.injEq, if_true, hnext,
        List.head?_cons, Option.any_some, hempty, true_and]
      simp only [List.length_cons]
      cases hmax : p.repetition.max with
      | some max => simp only [hmax] at hcount ⊢; simp at hcount; omega
      | none => simp only [Nat.min_def]; split <;> split <;> omega

end LoopPlan

/-! ### Accepting more -/

/-- The second search accepts whatever the first accepts, perhaps with other splits. -/
def PlainParse.le (parse parse' : PlainParse) : Prop :=
  ∀ d start stop s, parse d start stop = some s →
    ∃ s', parse' d start stop = some s' ∧ s'.span = s.span

theorem PlainParse.le.refl (parse : PlainParse) : parse.le parse := fun _ _ _ s h => ⟨s, h, rfl⟩

theorem PlainParse.le.isSome {parse parse' : PlainParse} (h : parse.le parse') {d : DefId}
    {start stop : Nat} (hs : (parse d start stop).isSome) : (parse' d start stop).isSome := by
  obtain ⟨s, hs⟩ := Option.isSome_iff_exists.1 hs
  obtain ⟨s', hs', _⟩ := h _ _ _ _ hs
  simp [hs']

/-- The first filter allows nothing that the second forbids. -/
def Filter.le (f f' : Filter) : Prop := ∀ e, f.allows e = true → f'.allows e = true

theorem Filter.le.refl (f : Filter) : f.le f := fun _ h => h

theorem Filter.le_everywhere (f : Filter) : f.le .everywhere := fun _ _ => rfl

/-- The same search, except that the second may leave out less. -/
structure Query.Wider (q q' : Query) : Prop where
  grammar : q'.grammar = q.grammar
  text : q'.text = q.text
  prune : q'.prune = true → q.prune = true

/-- The same loop, except that the second may leave out less. -/
structure LoopPlan.Wider (p p' : LoopPlan) : Prop where
  item : p'.item = p.item
  separator : p'.separator = p.separator
  repetition : p'.repetition = p.repetition
  start : p'.start = p.start
  stop : p'.stop = p.stop
  afterItem : p.afterItem.le p'.afterItem
  afterSeparator : p.afterSeparator.le p'.afterSeparator

namespace LoopPlan.Wider

variable {p p' : LoopPlan} {trail : List Split} {cursor e : Nat}

theorem refl (p : LoopPlan) : p.Wider p :=
  ⟨rfl, rfl, rfl, rfl, rfl, Filter.le.refl _, Filter.le.refl _⟩

theorem expectsSeparator (h : p.Wider p') :
    p'.expectsSeparator trail = p.expectsSeparator trail := by
  simp only [LoopPlan.expectsSeparator, h.separator]

theorem endsWithSeparator (h : p.Wider p') :
    p'.endsWithSeparator trail = p.endsWithSeparator trail := by
  simp only [LoopPlan.endsWithSeparator, h.separator, h.expectsSeparator]

theorem count (h : p.Wider p') : p'.count trail = p.count trail := by
  simp only [LoopPlan.count, h.separator]

theorem isComplete (h : p.Wider p') : p'.isComplete trail cursor = p.isComplete trail cursor := by
  simp only [LoopPlan.isComplete, h.stop, h.endsWithSeparator, h.repetition, h.count]

theorem isFull (h : p.Wider p') : p'.isFull trail = p.isFull trail := by
  simp only [LoopPlan.isFull, h.endsWithSeparator, h.repetition, h.count]

theorem element (h : p.Wider p') : p'.element trail = p.element trail := by
  simp only [LoopPlan.element, h.separator, h.item, h.expectsSeparator]

theorem isUseful (h : p.Wider p') : p'.isUseful trail cursor e = p.isUseful trail cursor e := by
  have hempty : p'.endsWithEmptySeparator trail = p.endsWithEmptySeparator trail := by
    simp only [LoopPlan.endsWithEmptySeparator, h.endsWithSeparator]
  have hbelow : p'.belowMin trail = p.belowMin trail := by
    simp only [LoopPlan.belowMin, h.count, h.repetition]
  rw [LoopPlan.isUseful, LoopPlan.isUseful, hempty, hbelow, h.separator]

theorem itemOrder (h : p.Wider p') (ends : List Nat) :
    p'.itemOrder cursor ends = p.itemOrder cursor ends := by
  simp only [LoopPlan.itemOrder, h.repetition]

theorem follows (h : p.Wider p') : (p.follows trail).le (p'.follows trail) := by
  rw [LoopPlan.follows, LoopPlan.follows, h.expectsSeparator]
  split
  · exact h.afterSeparator
  · exact h.afterItem

end LoopPlan.Wider

namespace Query

variable {q q' : Query} {parse parse' : PlainParse} {p p' : LoopPlan} {fuel fuel' : Nat}

namespace Wider

theorem refl (q : Query) : q.Wider q := ⟨rfl, rfl, id⟩

theorem exhaustive (q : Query) : q.Wider q.exhaustive :=
  ⟨rfl, rfl, fun h => absurd h Bool.false_ne_true⟩

theorem slice (h : q.Wider q') (start stop : Nat) : q'.slice start stop = q.slice start stop := by
  simp only [Query.slice, h.text]

theorem allEnds (h : q.Wider q') (item : DefId) (cursor stop : Nat) :
    q'.allEnds item cursor stop = q.allEnds item cursor stop := by
  simp only [Query.allEnds, h.grammar, h.slice]

theorem ends (h : q.Wider q') (item : DefId) (cursor stop : Nat) :
    q'.ends item cursor stop = q.ends item cursor stop := by
  simp only [Query.ends, quantifier, h.grammar, h.allEnds]

theorem follows (h : q.Wider q') (tail : Tail) (start stop : Nat) :
    (q.follows tail start stop).le (q'.follows tail start stop) := by
  rw [Query.follows, Query.follows]
  by_cases hprune : q'.prune = true
  · rw [if_pos hprune, if_pos (h.prune hprune), h.grammar, h.slice]
    exact Filter.le.refl _
  · rw [if_neg hprune]
    exact Filter.le_everywhere _

theorem sequenceFollows (h : q.Wider q') {d d' : DefId}
    (hd : q.grammar.resolve d' = q.grammar.resolve d) (count start stop k : Nat) :
    ((q.sequenceFollows d count start stop).getD k .everywhere).le
      ((q'.sequenceFollows d' count start stop).getD k .everywhere) := by
  simp only [Query.sequenceFollows, Array.getD_eq_getD_getElem?, Array.getElem?_map, h.grammar, hd]
  cases (Array.range (count + 1))[k]? with
  | none => exact Filter.le.refl _
  | some n => exact h.follows _ start stop

theorem loopPlan (h : q.Wider q') {d d' : DefId}
    (hd : q.grammar.resolve d' = q.grammar.resolve d) (item : DefId) (separator : Option DefId)
    (repetition : Repetition) (start stop : Nat) :
    (q.loopPlan d item separator repetition start stop).Wider
      (q'.loopPlan d' item separator repetition start stop) where
  item := rfl
  separator := rfl
  repetition := rfl
  start := rfl
  stop := rfl
  afterItem := by
    simp only [Query.loopPlan, h.grammar, hd]
    split <;> exact h.follows _ start stop
  afterSeparator := by
    simp only [Query.loopPlan, h.grammar, hd]
    exact h.follows _ start stop

end Wider

theorem isSome_findSome?_mono {α β γ : Type} {f : α → Option β} {g : α → Option γ} {as bs : List α}
    (hab : ∀ a ∈ as, (f a).isSome → a ∈ bs ∧ (g a).isSome) (h : (as.findSome? f).isSome) :
    (bs.findSome? g).isSome := by
  rw [List.findSome?_isSome_iff] at h ⊢
  obtain ⟨a, ha, hf⟩ := h
  exact ⟨a, hab a ha hf⟩

theorem plainSequence_mono (hq : q.Wider q') (hparse : parse.le parse') {stop : Nat}
    {follows follows' : Array Filter}
    (hfollows : ∀ k, (follows.getD k .everywhere).le (follows'.getD k .everywhere))
    {items : List DefId} {k cursor : Nat}
    (h : (q.plainSequence parse stop follows items k cursor).isSome) :
    (q'.plainSequence parse' stop follows' items k cursor).isSome := by
  induction items generalizing k cursor with
  | nil => exact h
  | cons item items ih =>
      rw [plainSequence] at h ⊢
      refine isSome_findSome?_mono (fun e he hs => ?_) h
      obtain ⟨he, hallow⟩ := List.mem_filter.1 he
      obtain ⟨parts, hs⟩ := Option.isSome_iff_exists.1 hs
      obtain ⟨part, hpart, hrest⟩ := Option.bind_eq_some_iff.1 hs
      obtain ⟨rest, hrest, _⟩ := Option.map_eq_some_iff.1 hrest
      obtain ⟨part', hpart', _⟩ := hparse _ _ _ _ hpart
      have hrest' := ih (Option.isSome_iff_exists.2 ⟨rest, hrest⟩)
      refine ⟨List.mem_filter.2 ⟨by rwa [hq.ends], hfollows _ e hallow⟩, ?_⟩
      simpa [hpart'] using hrest'

theorem plainChoice_mono (hq : q.Wider q') (hparse : parse.le parse') {start stop : Nat}
    {alternatives : List DefId} {k : Nat}
    (h : (q.plainChoice parse start stop alternatives k).isSome) :
    (q'.plainChoice parse' start stop alternatives k).isSome := by
  induction alternatives generalizing k with
  | nil => simp [plainChoice] at h
  | cons a as ih =>
      rw [plainChoice, Option.isSome_or, Bool.or_eq_true, Option.isSome_map] at h ⊢
      refine h.imp (fun h => ?_) ih
      split at h
      · simp at h
      · next hfeasible =>
          have hfeasible' : ¬ (q'.prune && !q'.grammar.feasible a (q'.slice start stop)) = true := by
            simp only [hq.slice, hq.grammar, Bool.and_eq_true] at hfeasible ⊢
            exact fun hc => hfeasible ⟨hq.prune hc.1, hc.2⟩
          rw [if_neg hfeasible']
          exact hparse.isSome h

/-- From one point on, a loop with more fuel, more candidates and parts that accept more can be
completed whenever the first loop can. -/
theorem plainExtend_mono (hq : q.Wider q') (hp : p.Wider p') (hparse : parse.le parse')
    (hfuel : fuel ≤ fuel') {trail trail' : List Split} {cursor : Nat}
    (hpoint : p.point trail cursor = p.point trail' cursor)
    (h : (q.plainExtend parse p fuel trail cursor).isSome) :
    (q'.plainExtend parse' p' fuel' trail' cursor).isSome := by
  induction fuel generalizing fuel' trail trail' cursor with
  | zero => simp [plainExtend] at h
  | succ fuel ih =>
      obtain ⟨fuel', rfl⟩ : ∃ n, fuel' = n + 1 := ⟨fuel' - 1, by omega⟩
      rw [plainExtend] at h ⊢
      rw [hp.isComplete, hp.isFull, ← LoopPlan.isComplete_congr hpoint,
        ← LoopPlan.isFull_congr hpoint]
      split
      · simp
      · next hc =>
        rw [if_neg hc] at h
        split
        · next hf => simp [hf] at h
        · next hf =>
          rw [if_neg hf] at h
          refine isSome_findSome?_mono (fun e he hs => ?_) h
          obtain ⟨parts, hs⟩ := Option.isSome_iff_exists.1 hs
          obtain ⟨part, hpart, hrest⟩ := Option.bind_eq_some_iff.1 hs
          obtain ⟨part', hpart', hspan⟩ := hparse _ _ _ _ hpart
          have hnext : p.point (part :: trail) e = p.point (part' :: trail') e :=
            LoopPlan.point_cons_congr hpoint hspan
          have hrest' := ih (Nat.le_of_succ_le_succ hfuel) hnext
            (Option.isSome_iff_exists.2 ⟨parts, hrest⟩)
          refine ⟨?_, ?_⟩
          · simp only [loopEnds, List.mem_filter] at he ⊢
            obtain ⟨⟨hord, huseful⟩, hallow⟩ := he
            rw [hp.element, hp.expectsSeparator, hp.isUseful, hp.itemOrder, hq.allEnds, hq.ends,
              hp.stop, ← LoopPlan.expectsSeparator_congr hpoint, ← LoopPlan.element_congr hpoint,
              ← LoopPlan.isUseful_congr hpoint]
            refine ⟨⟨hord, huseful⟩, hp.follows e ?_⟩
            rwa [← LoopPlan.follows_congr hpoint]
          · rw [hp.element, ← LoopPlan.element_congr hpoint, hpart']
            exact hrest'

/-- **Parts that accept more make a whole that accepts more**, and so do fewer filters and more
fuel; and it does not matter under which name a structural definition is tried. -/
theorem plainShape_mono (hq : q.Wider q') (hparse : parse.le parse') (hfuel : fuel ≤ fuel')
    {d d' : DefId} (hd : q.grammar.resolve d' = q.grammar.resolve d) {start stop : Nat}
    (h : (q.plainShape parse fuel d start stop).isSome) :
    (q'.plainShape parse' fuel' d' start stop).isSome := by
  have hshape : q'.grammar.shape d' = q.grammar.shape d := by
    simp only [Grammar.shape, hq.grammar, hd]
  have hleaf : q'.grammar.leafMatches d' (q'.slice start stop) =
      q.grammar.leafMatches d (q.slice start stop) := by
    simp only [Grammar.leafMatches, hq.grammar, hq.slice, hd]
  have hloop : ∀ item separator repetition,
      (q.plainLoop parse (q.loopPlan d item separator repetition start stop) fuel).isSome →
      (q'.plainLoop parse' (q'.loopPlan d' item separator repetition start stop) fuel').isSome := by
    intro item separator repetition hl
    rw [plainLoop, Option.isSome_map] at hl ⊢
    exact plainExtend_mono hq (hq.loopPlan hd item separator repetition start stop) hparse hfuel
      rfl hl
  rw [plainShape] at h ⊢
  rw [hshape, hleaf, hq.slice]
  split at h
  case h_4 items _ =>
      rw [Option.isSome_map] at h ⊢
      exact plainSequence_mono hq hparse (hq.sequenceFollows hd items.length start stop) h
  case h_5 => exact plainChoice_mono hq hparse h
  case h_6 =>
      split
      · rfl
      · next hne =>
          rw [if_neg hne, Option.isSome_map] at h
          rw [Option.isSome_map]
          exact hparse.isSome h
  case h_7 => exact hloop _ _ _ h
  case h_8 => exact hloop _ _ _ h
  all_goals exact h

theorem plainShape_le (hq : q.Wider q') (hparse : parse.le parse') (hfuel : fuel ≤ fuel')
    {d d' : DefId} (hd : q.grammar.resolve d' = q.grammar.resolve d) {start stop : Nat} {s : Split}
    (h : q.plainShape parse fuel d start stop = some s) :
    ∃ s', q'.plainShape parse' fuel' d' start stop = some s' ∧ s'.span = s.span := by
  obtain ⟨s', hs'⟩ :=
    Option.isSome_iff_exists.1
      (plainShape_mono hq hparse hfuel hd (Option.isSome_iff_exists.2 ⟨s, h⟩))
  exact ⟨s', hs', by rw [plainShape_span hs', plainShape_span h]⟩

/-! ### The free search -/

/-- The free search accepts more with more fuel, under every name of a definition. -/
theorem free_mono (hfuel : fuel ≤ fuel') {d d' : DefId}
    (hd : q.grammar.resolve d' = q.grammar.resolve d) {start stop : Nat} {s : Split}
    (h : q.free fuel d start stop = some s) :
    ∃ s', q.free fuel' d' start stop = some s' ∧ s'.span = s.span := by
  induction fuel generalizing fuel' d d' start stop s with
  | zero => simp [free] at h
  | succ fuel ih =>
      obtain ⟨fuel', rfl⟩ : ∃ n, fuel' = n + 1 := ⟨fuel' - 1, by omega⟩
      have hle : fuel ≤ fuel' := by omega
      exact plainShape_le (Wider.refl q) (fun _ _ _ _ hs => ih hle rfl hs) hle hd h

/-- What the plain search accepts inside of any parts, the free search accepts. -/
theorem plain_le_free (fuel : Nat) (active : List Part) :
    PlainParse.le (q.plain fuel active) (q.free fuel) := by
  induction fuel generalizing active with
  | zero => intro d start stop s h; simp [plain] at h
  | succ fuel ih =>
      intro d start stop s h
      simp only [plain] at h
      split at h
      · simp at h
      · exact plainShape_le (Wider.refl q) (ih _) (Nat.le_refl _) rfl h

/-- A part that the free search never accepts is rejected inside of all parts, under every name. -/
theorem plain_eq_none_of_free {d d' : DefId} (hd : q.grammar.resolve d' = q.grammar.resolve d)
    {start stop : Nat} (h : ∀ fuel, q.free fuel d' start stop = none) (fuel : Nat)
    (active : List Part) : q.plain fuel active d start stop = none := by
  refine Option.eq_none_iff_forall_ne_some.2 fun s hs => ?_
  obtain ⟨s', hs', _⟩ := plain_le_free fuel active d start stop s hs
  obtain ⟨s'', hs'', _⟩ := free_mono (Nat.le_refl _) hd hs'
  simp [h] at hs''

/-! ### Less pruning -/

/-- What the search accepts with pruning, it accepts without. -/
theorem plain_le_of_wider (hq : q.Wider q') (fuel : Nat) (active : List Part) :
    PlainParse.le (q.plain fuel active) (q'.plain fuel active) := by
  induction fuel generalizing active with
  | zero => intro d start stop s h; simp [plain] at h
  | succ fuel ih =>
      intro d start stop s h
      simp only [plain, hq.grammar] at h ⊢
      split at h
      · simp at h
      · next hactive =>
          rw [if_neg hactive]
          exact plainShape_le hq (ih _) (Nat.le_refl _) rfl h

end Query

end Tessera
