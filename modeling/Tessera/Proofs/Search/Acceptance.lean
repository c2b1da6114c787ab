/-
**What a definition accepts.**

A definition accepts a text when the text has a split.  Whether it accepts a part of a longer text
depends on the characters of the part alone: not on where the part stands, and not on the parts that
the search is inside of.  A part that is refused because the search is already inside of it is
accepted with less nesting if it is accepted at all, so the guard never decides about acceptance, and
the free search over a range says whether the text of the range is accepted.

The guard may decide which split is found.  When a search refused nothing, its split is that of the
free search, down to every part.

Main definitions:

* `Tessera.Grammar.Accepts` — a definition accepts a text;
* `Tessera.Grammar.refusals` — how often the searches for the split of a text refused a part.

Main results:

* `Tessera.Query.free_le_plain` — what is accepted without the guard is accepted with it;
* `Tessera.Query.free_slice` — the free search looks at nothing but its range;
* `Tessera.Grammar.accepts_slice` — **a definition accepts the text of a range when the free search
  over the range finds a split**;
* `Tessera.free_of_resolve` — **without refusals the split is that of the free search**.
-/

import Tessera.Proofs.Search.PatternDepth

set_option autoImplicit false

namespace Tessera

/-! ### The guard -/

namespace Query

variable {q : Query} {fuel fuel' : Nat}

/-- The plain search accepts more with more fuel. -/
theorem plain_mono (hfuel : fuel ≤ fuel') (active : List Part) :
    PlainParse.le (q.plain fuel active) (q.plain fuel' active) := by
  induction fuel generalizing fuel' active with
  | zero => intro d start stop s h; simp [plain] at h
  | succ fuel ih =>
      intro d start stop s h
      obtain ⟨fuel', rfl⟩ : ∃ n, fuel' = n + 1 := ⟨fuel' - 1, by omega⟩
      have hle : fuel ≤ fuel' := by omega
      simp only [plain] at h ⊢
      split at h
      · simp at h
      · next hactive =>
        rw [if_neg hactive]
        exact plainShape_le (Wider.refl q) (ih hle _) hle rfl h

/-- **What is accepted without the guard is accepted inside of parts that take more fuel.** -/
theorem free_le_plain
    (hresolve : ∀ d, q.grammar.resolve (q.grammar.resolve d) = q.grammar.resolve d)
    {active : List Part}
    (hactive : ∀ part ∈ active, q.free fuel part.definition part.start part.stop = none) :
    PlainParse.le (q.free fuel) (q.plain fuel active) := by
  induction fuel generalizing active with
  | zero => intro d start stop s h; simp [free] at h
  | succ fuel ih =>
      intro d start stop s h
      have hless : ∀ {d' start stop}, q.free (fuel + 1) d' start stop = none →
          q.free fuel d' start stop = none := by
        intro d' start stop hnone
        refine Option.eq_none_iff_forall_ne_some.2 fun x hx => ?_
        obtain ⟨x', hx', -⟩ := free_mono (Nat.le_succ fuel) rfl hx
        simp [hnone] at hx'
      by_cases hsome : ∃ x, q.free fuel d start stop = some x
      · -- the part is accepted with less fuel already
        obtain ⟨x, hx⟩ := hsome
        obtain ⟨x', hx', -⟩ := ih (fun part hpart => hless (hactive part hpart)) d start stop x hx
        obtain ⟨x'', hx'', -⟩ := plain_mono (Nat.le_succ fuel) active d start stop x' hx'
        exact ⟨x'', hx'', by rw [plain_span hx'', free_span h]⟩
      · have hnone : q.free fuel d start stop = none :=
          Option.eq_none_iff_forall_ne_some.2 fun x hx => hsome ⟨x, hx⟩
        have hnot : ¬ active.contains (⟨q.grammar.resolve d, start, stop⟩ : Part) = true := by
          intro hmem
          obtain ⟨x', hx', -⟩ := free_mono (Nat.le_refl _) (hresolve d) h
          have := hactive _ (List.contains_iff_mem.1 hmem)
          simp [this] at hx'
        simp only [plain]
        rw [if_neg hnot]
        refine plainShape_le (Wider.refl q) (ih fun part hpart => ?_) (Nat.le_refl _) rfl h
        rcases List.mem_cons.1 hpart with rfl | hpart
        · exact Option.eq_none_iff_forall_ne_some.2 fun x hx => by
            obtain ⟨x', hx', -⟩ := free_mono (Nat.le_refl _) (hresolve d).symm hx
            simp [hnone] at hx'
        · exact hless (hactive part hpart)

/-- What the free search accepts is a derivation. -/
theorem free_fits (hg : q.grammar.Valid) (fuel : Nat) : q.FittingParts (q.free fuel) := by
  induction fuel with
  | zero => intro d start stop s _ h; simp [free] at h
  | succ fuel ih =>
      intro d start stop s hrange h
      exact ⟨free_span h, plainShape_fits hg ih hrange h⟩

/-- The free search finds the same with and without pruning. -/
theorem free_exhaustive (hg : q.grammar.Valid) (hreg : q.grammar.Regular) (fuel : Nat) :
    q.SameParts (q.free fuel) (q.exhaustive.free fuel) := by
  induction fuel with
  | zero => exact fun _ _ _ _ => rfl
  | succ fuel ih =>
      intro d start stop hrange
      rw [free, free,
        plainShape_exhaustive hg hreg (free_fits (q := q.exhaustive) hg fuel) ih hrange]

end Query

/-! ### Moving a range -/

/-- A range of the text of a range is a range of the whole text, with the same text. -/
theorem isRange_of_slice {text w : Text} {a b s e : Nat} (hw : slice? text a b = some w)
    (h : IsRange w s e) :
    IsRange text (a + s) (a + e) ∧ slice text (a + s) (a + e) = slice w s e := by
  have hslice := slice?_slice? hw h.slice?
  exact ⟨.of_slice? hslice, slice_eq_of_slice? hslice⟩

theorem Quantifier.order_map (quantifier : Quantifier) (f : Nat → Nat) (ends : List Nat) :
    quantifier.order (ends.map f) = (quantifier.order ends).map f := by
  cases quantifier with
  | greedy => exact List.map_reverse.symm
  | lazy => rfl
  | possessive =>
      simp only [order, List.getLast?_map]
      cases ends.getLast? <;> rfl

/-- The same loop over a range that begins `a` bytes later. -/
structure LoopPlan.Moved (a : Nat) (p p' : LoopPlan) : Prop where
  item : p'.item = p.item
  separator : p'.separator = p.separator
  repetition : p'.repetition = p.repetition
  stop : p'.stop = a + p.stop

namespace LoopPlan.Moved

variable {a : Nat} {p p' : LoopPlan} {trail trail' : List Split} {cursor e : Nat}

theorem expectsSeparator (h : p.Moved a p') (hlength : trail'.length = trail.length) :
    p'.expectsSeparator trail' = p.expectsSeparator trail := by
  simp only [LoopPlan.expectsSeparator, h.separator, hlength]

theorem element (h : p.Moved a p') (hlength : trail'.length = trail.length) :
    p'.element trail' = p.element trail := by
  simp only [LoopPlan.element, h.separator, h.item, h.expectsSeparator hlength]

theorem count (h : p.Moved a p') (hlength : trail'.length = trail.length) :
    p'.count trail' = p.count trail := by
  simp only [LoopPlan.count, h.separator, hlength]

theorem endsWithSeparator (h : p.Moved a p') (hlength : trail'.length = trail.length) :
    p'.endsWithSeparator trail' = p.endsWithSeparator trail := by
  have hempty : trail'.isEmpty = trail.isEmpty := by
    rw [Bool.eq_iff_iff, List.isEmpty_iff_length_eq_zero, List.isEmpty_iff_length_eq_zero, hlength]
  simp only [LoopPlan.endsWithSeparator, h.separator, h.expectsSeparator hlength, hempty]

theorem isComplete (h : p.Moved a p') (hlength : trail'.length = trail.length) :
    p'.isComplete trail' (a + cursor) = p.isComplete trail cursor := by
  have hcursor : (a + cursor == a + p.stop) = (cursor == p.stop) := by
    rw [Bool.eq_iff_iff, beq_iff_eq, beq_iff_eq, Nat.add_left_cancel_iff]
  simp only [LoopPlan.isComplete, h.stop, hcursor, h.endsWithSeparator hlength, h.repetition,
    h.count hlength]

theorem isFull (h : p.Moved a p') (hlength : trail'.length = trail.length) :
    p'.isFull trail' = p.isFull trail := by
  simp only [LoopPlan.isFull, h.endsWithSeparator hlength, h.repetition, h.count hlength]

theorem isUseful (h : p.Moved a p')
    (htrail : List.Forall₂ (fun s s' : Split => s'.isEmpty = s.isEmpty) trail trail') :
    p'.isUseful trail' (a + cursor) (a + e) = p.isUseful trail cursor e := by
  have hlength := htrail.length_eq.symm
  have hhead : trail'.head?.any Split.isEmpty = trail.head?.any Split.isEmpty := by
    cases htrail with
    | nil => rfl
    | cons hs _ => simpa using hs
  have hempty : p'.endsWithEmptySeparator trail' = p.endsWithEmptySeparator trail := by
    rw [LoopPlan.endsWithEmptySeparator, h.endsWithSeparator hlength, hhead]; rfl
  have hbelow : p'.belowMin trail' = p.belowMin trail := by
    rw [LoopPlan.belowMin, h.count hlength, h.repetition]; rfl
  have hbefore : decide (a + cursor < a + e) = decide (cursor < e) := by
    rw [decide_eq_decide]; omega
  rw [LoopPlan.isUseful, h.separator, hempty, hbelow, hbefore]; rfl

theorem itemOrder (h : p.Moved a p') (ends : List Nat) :
    p'.itemOrder (a + cursor) (ends.map (a + ·)) = (p.itemOrder cursor ends).map (a + ·) := by
  simp only [LoopPlan.itemOrder, h.repetition]
  cases p.repetition.quantifier with
  | greedy =>
      rcases ends with _ | ⟨e, _ | ⟨f, rest⟩⟩
      · rfl
      · rfl
      · simp only [List.map_cons, Nat.add_left_cancel_iff]
        split <;> simp
  | lazy => exact Quantifier.order_map .greedy (a + ·) ends
  | possessive => exact Quantifier.order_map .possessive (a + ·) ends

end LoopPlan.Moved

theorem isSome_findSome?_congr {α β γ : Type} {f : α → Option β} {g : α → Option γ} {as : List α}
    (h : ∀ a ∈ as, (f a).isSome = (g a).isSome) :
    (as.findSome? f).isSome = (as.findSome? g).isSome := by
  have hmono : ∀ {β γ : Type} {f : α → Option β} {g : α → Option γ},
      (∀ a ∈ as, (f a).isSome = (g a).isSome) → (as.findSome? f).isSome →
        (as.findSome? g).isSome :=
    fun h => Query.isSome_findSome?_mono fun a ha hs => ⟨ha, h a ha ▸ hs⟩
  exact Bool.eq_iff_iff.2 ⟨hmono h, hmono fun a ha => (h a ha).symm⟩

theorem isSome_bind_congr {α β γ δ : Type} {x : Option α} {y : Option β} {f : α → Option γ}
    {g : β → Option δ} (hxy : x.isSome = y.isSome)
    (hfg : ∀ a b, x = some a → y = some b → (f a).isSome = (g b).isSome) :
    (x.bind f).isSome = (y.bind g).isSome := by
  cases x with
  | none => cases y with
    | none => rfl
    | some b => simp at hxy
  | some a => cases y with
    | none => simp at hxy
    | some b => exact hfg a b rfl rfl

namespace Query

section Moves

variable {g : Grammar} {text w : Text} {a b : Nat} {parse parse' : PlainParse}

/-- Over the text of a range the first search of parts accepts what the second one accepts over the
range itself, and both keep to the range that they are given. -/
structure MovedParts (w : Text) (a : Nat) (parse parse' : PlainParse) : Prop where
  isSome : ∀ d s e, IsRange w s e → (parse d s e).isSome = (parse' d (a + s) (a + e)).isSome
  span : ∀ {d s e x}, parse d s e = some x → x.span = ⟨s, e⟩
  span' : ∀ {d s e x}, parse' d s e = some x → x.span = ⟨s, e⟩

variable (hg : g.Valid) (hw : slice? text a b = some w)
include hw

theorem allEnds_slice {item : DefId} {cursor stop : Nat}
    (h : IsRange w cursor stop) :
    (g.query text).allEnds item (a + cursor) (a + stop) =
      ((g.query w).allEnds item cursor stop).map (a + ·) := by
  have hslice : (g.query text).slice (a + cursor) (a + stop) =
      (g.query w).slice cursor stop := (isRange_of_slice hw h).2
  simp only [allEnds, hslice, List.map_map, Function.comp_def, Nat.add_assoc]

theorem ends_slice {item : DefId} {cursor stop : Nat} (h : IsRange w cursor stop) :
    (g.query text).ends item (a + cursor) (a + stop) =
      ((g.query w).ends item cursor stop).map (a + ·) := by
  rw [ends, allEnds_slice hw h, Quantifier.order_map]
  rfl

include hg

variable (hparse : MovedParts w a parse parse')
include hparse

theorem isSome_plainSequence_slice {stop : Nat} {follows follows' : Array Filter}
    (hfollows : ∀ k, follows.getD k .everywhere = .everywhere)
    (hfollows' : ∀ k, follows'.getD k .everywhere = .everywhere) {items : List DefId} {k : Nat}
    {cursor : Nat} (h : IsRange w cursor stop) :
    ((g.query w).plainSequence parse stop follows items k cursor).isSome =
      ((g.query text).plainSequence parse' (a + stop) follows' items k (a + cursor)).isSome := by
  induction items generalizing k cursor with
  | nil =>
      have hcursor : (a + cursor = a + stop) ↔ cursor = stop := Nat.add_left_cancel_iff
      simp only [plainSequence, hcursor]
  | cons item items ih =>
      rw [plainSequence, plainSequence, hfollows, hfollows', filter_everywhere, filter_everywhere,
        ends_slice hw h, List.findSome?_map]
      refine isSome_findSome?_congr fun e he => ?_
      obtain ⟨hleft, hright⟩ :=
        isRange_of_mem_allEnds (q := g.query w) hg h (mem_allEnds_of_ends he)
      refine isSome_bind_congr (hparse.isSome item cursor e hleft) fun _ _ _ _ => ?_
      rw [Option.isSome_map, Option.isSome_map]
      exact ih hright

omit hg hw in
theorem isSome_plainChoice_slice {start stop : Nat} (h : IsRange w start stop)
    {alternatives : List DefId} {index : Nat} :
    ((g.query w).plainChoice parse start stop alternatives index).isSome =
      ((g.query text).plainChoice parse' (a + start) (a + stop) alternatives index).isSome := by
  induction alternatives generalizing index with
  | nil => rfl
  | cons alternative alternatives ih =>
      rw [plainChoice, plainChoice, Option.isSome_or, Option.isSome_or, Option.isSome_map,
        Option.isSome_map, ih]
      exact congrArg (· || _) (hparse.isSome alternative start stop h)

theorem isSome_plainExtend_slice {p p' : LoopPlan} (hp : p.Moved a p')
    (hfollows : ∀ trail, p.follows trail = .everywhere)
    (hfollows' : ∀ trail, p'.follows trail = .everywhere) (fuel : Nat) {trail trail' : List Split}
    (htrail : List.Forall₂ (fun s s' : Split => s'.isEmpty = s.isEmpty) trail trail') {cursor : Nat}
    (h : IsRange w cursor p.stop) :
    ((g.query w).plainExtend parse p fuel trail cursor).isSome =
      ((g.query text).plainExtend parse' p' fuel trail' (a + cursor)).isSome := by
  induction fuel generalizing trail trail' cursor with
  | zero => rfl
  | succ fuel ih =>
      have hlength := htrail.length_eq.symm
      rw [plainExtend, plainExtend, hp.isComplete hlength, hp.isFull hlength]
      split
      · rfl
      split
      · rfl
      have hends : (g.query text).loopEnds p' trail' (a + cursor) =
          ((g.query w).loopEnds p trail cursor).map (a + ·) := by
        have huseful : (p'.isUseful trail' (a + cursor) ∘ fun e => a + e) =
            p.isUseful trail cursor := funext fun e => hp.isUseful htrail
        rw [loopEnds, loopEnds, hfollows, hfollows', filter_everywhere, filter_everywhere]
        simp only [hp.element hlength, hp.expectsSeparator hlength, hp.stop, ends_slice hw h,
          allEnds_slice hw h, hp.itemOrder, List.filter_map, ← apply_ite, huseful]
      rw [hends, List.findSome?_map]
      refine isSome_findSome?_congr fun e he => ?_
      obtain ⟨hleft, hright⟩ :=
        isRange_of_mem_allEnds (q := g.query w) hg h (mem_allEnds_of_loopEnds he)
      rw [Function.comp_apply, hp.element hlength]
      refine isSome_bind_congr (hparse.isSome _ cursor e hleft) fun x x' hx hx' => ?_
      refine ih (.cons ?_ htrail) hright
      rw [Split.isEmpty, Split.isEmpty, hparse.span hx, hparse.span' hx', Bool.eq_iff_iff]
      simp

theorem isSome_plainLoop_slice {d item : DefId} {separator : Option DefId} {r : Repetition}
    {start stop fuel : Nat} (h : IsRange w start stop) :
    ((g.query w).plainLoop parse ((g.query w).loopPlan d item separator r start stop) fuel).isSome =
      ((g.query text).plainLoop parse'
        ((g.query text).loopPlan d item separator r (a + start) (a + stop)) fuel).isSome := by
  have hmoved : LoopPlan.Moved a ((g.query w).loopPlan d item separator r start stop)
      ((g.query text).loopPlan d item separator r (a + start) (a + stop)) := ⟨rfl, rfl, rfl, rfl⟩
  rw [plainLoop, plainLoop, Option.isSome_map, Option.isSome_map]
  exact isSome_plainExtend_slice hg hw hparse hmoved (loopFollows_unpruned rfl d item separator r _ _)
    (loopFollows_unpruned rfl d item separator r _ _) fuel .nil h

/-- When the parts are accepted alike, so is the whole. -/
theorem isSome_plainShape_slice {d : DefId} {start stop fuel : Nat} (h : IsRange w start stop) :
    ((g.query w).plainShape parse fuel d start stop).isSome =
      ((g.query text).plainShape parse' fuel d (a + start) (a + stop)).isSome := by
  have hslice : (g.query text).slice (a + start) (a + stop) = (g.query w).slice start stop :=
    (isRange_of_slice hw h).2
  have hleaf : ∀ start stop start' stop' fits,
      (plainLeaf start stop fits).isSome = (plainLeaf start' stop' fits).isSome := by
    intro start stop start' stop' fits
    cases fits <;> rfl
  have hempty : (a + start = a + stop) ↔ start = stop := Nat.add_left_cancel_iff
  rw [plainShape, plainShape, hslice]
  cases g.shape d with
  | literal text => exact hleaf _ _ _ _ _
  | pattern source => exact hleaf _ _ _ _ _
  | empty =>
      have hbeq : (a + start == a + stop) = (start == stop) := by
        rw [Bool.eq_iff_iff, beq_iff_eq, beq_iff_eq, hempty]
      rw [hbeq]
      exact hleaf _ _ _ _ _
  | sequence items =>
      dsimp only
      rw [Option.isSome_map, Option.isSome_map]
      exact isSome_plainSequence_slice hg hw hparse (sequenceFollows_unpruned rfl d _ _ _)
        (sequenceFollows_unpruned rfl d _ _ _) h
  | choice alternatives => exact isSome_plainChoice_slice hparse h
  | optional item quantifier =>
      dsimp only
      simp only [hempty]
      split
      · rfl
      · rw [Option.isSome_map, Option.isSome_map, hparse.isSome item start stop h]
  | loop item r => exact isSome_plainLoop_slice hg hw hparse h
  | separated item separator default r => exact isSome_plainLoop_slice hg hw hparse h
  | «alias» target name => rfl
  | forward target => rfl
  | withDefault content target => rfl

omit hparse in
/-- **The free search looks at nothing but its range.** -/
theorem free_slice (fuel : Nat) : MovedParts w a ((g.query w).free fuel) ((g.query text).free fuel) := by
  induction fuel with
  | zero => exact ⟨fun _ _ _ _ => rfl, free_span, free_span⟩
  | succ fuel ih =>
      exact ⟨fun d s e h => isSome_plainShape_slice hg hw ih h, free_span, free_span⟩

end Moves

end Query

/-! ### Acceptance -/

/-- The definition accepts the text: the text has a split. -/
def Grammar.Accepts (g : Grammar) (d : DefId) (text : Text) : Prop :=
  ∃ split, (Tessera.resolve g d text).result = .ok split

namespace Grammar

variable {g : Grammar} (hg : g.Valid) (hlimit : g.limits.recursionLimit = none) {d : DefId}
  (hd : d < g.size) {text : Text}
include hg hlimit hd

/-- The guard does not decide about acceptance. -/
theorem accepts_iff : g.Accepts d text ↔
    ∃ fuel, ((g.query text).free fuel d 0 (byteLength text)).isSome := by
  have hresult := Query.run_describes (q := g.query text) hg hlimit hd
  rw [Accepts, resolve_ok_iff hg hlimit hd]
  constructor
  · rintro ⟨s, hs⟩
    obtain ⟨fuel, hfuel⟩ := Query.run_ok (q := g.query text) hg hs
    obtain ⟨s', hs', -⟩ := Query.plain_le_free fuel [] d 0 _ s hfuel
    exact ⟨fuel, Option.isSome_iff_exists.2 ⟨s', hs'⟩⟩
  · rintro ⟨fuel, hfuel⟩
    obtain ⟨s, hs⟩ := Option.isSome_iff_exists.1 hfuel
    obtain ⟨s', hs', -⟩ := Query.free_le_plain (q := g.query text) hg.resolve_resolve
      (fun part (h : part ∈ []) => absurd h List.not_mem_nil) d 0 _ s hs
    match hr : ((g.query text).run d).1 with
    | .ok s => exact ⟨s, rfl⟩
    | .error e =>
        rw [hr] at hresult
        cases hs'.symm.trans (hresult.2 fuel)

/-- A definition accepts a text that its rule can be found in. -/
theorem accepts_iff_shape : g.Accepts d text ↔ ∃ fuel,
    ((g.query text).plainShape ((g.query text).free fuel) fuel d 0 (byteLength text)).isSome := by
  rw [accepts_iff hg hlimit hd]
  constructor
  · rintro ⟨fuel, hfuel⟩
    cases fuel with
    | zero => cases hfuel
    | succ fuel => exact ⟨fuel, hfuel⟩
  · rintro ⟨fuel, hfuel⟩
    exact ⟨fuel + 1, hfuel⟩

/-- **A definition accepts the text of a range when the free search over the range finds a split.** -/
theorem accepts_slice {a b : Nat} (hrange : IsRange text a b) :
    g.Accepts d (slice text a b) ↔ ∃ fuel, ((g.query text).free fuel d a b).isSome := by
  rw [accepts_iff hg hlimit hd]
  refine exists_congr fun fuel => ?_
  rw [(Query.free_slice hg hrange.slice? fuel).isSome d 0 _ (IsRange.whole _), Nat.add_zero,
    ← slice?_stop hrange.slice?]

end Grammar

/-! ### Searches that refuse nothing -/

/-- How often the searches for the split of a text refused a part because they were inside of it. -/
def Grammar.refusals (g : Grammar) (d : DefId) (text : Text) : Nat :=
  let again := ((g.query text).run d).2.refusals
  if g.feasible d text then
    match Query.run ⟨g, text, true⟩ d with
    | (.error .rejected, s) => s.refusals + again
    | (_, s) => s.refusals
  else again

/-- A search that refuses nothing has the result of the free search. -/
theorem Query.run_free {q : Query} (hg : q.grammar.Valid)
    (hlimit : q.grammar.limits.recursionLimit = none) {d : DefId} (hd : d < q.grammar.size)
    (hcalm : (q.run d).2.refusals = 0) :
    Describes (q.run d).1 fun fuel => q.free fuel d 0 (byteLength q.text) := by
  have htracked := run_tracked hg d
  rcases run_ok_or_rejected hg hlimit hd with ⟨s, hr⟩ | hr
  · rw [hr] at htracked ⊢
    exact (htracked.1.2.2 hcalm).2
  · rw [hr] at htracked ⊢
    exact ⟨rfl, (htracked.1.2.2 hcalm).2⟩

/-- **Without refusals the split is that of the free search.** -/
theorem free_of_resolve {g : Grammar} (hg : g.Valid) (hreg : g.Regular)
    (hlimit : g.limits.recursionLimit = none) {d : DefId} (hd : d < g.size) {text : Text}
    (hcalm : g.refusals d text = 0) {split : Split} (h : (resolve g d text).result = .ok split) :
    Eventually (fun fuel => (g.query text).free fuel d 0 (byteLength text)) split := by
  have hrun : ∀ prune s, Query.run ⟨g, text, prune⟩ d = (.ok split, s) → s.refusals = 0 →
      Eventually (fun fuel => (g.query text).free fuel d 0 (byteLength text)) split := by
    intro prune s hr hs
    have hsame : (fun fuel => Query.free ⟨g, text, prune⟩ fuel d 0 (byteLength text)) =
        fun fuel => (g.query text).free fuel d 0 (byteLength text) :=
      funext fun fuel => Query.free_exhaustive (q := ⟨g, text, prune⟩) hg hreg fuel d 0 _
        (IsRange.whole text)
    have hresult := Query.run_free (q := ⟨g, text, prune⟩) hg hlimit hd (by rw [hr]; exact hs)
    rw [hr, hsame] at hresult
    exact hresult
  have hfully : ∀ before, (resolveFully g d text before).result = .ok split →
      ((g.query text).run d).2.refusals = 0 →
      Eventually (fun fuel => (g.query text).free fuel d 0 (byteLength text)) split := by
    intro before h hs
    rw [resolveFully] at h
    split at h
    · next hr =>
      obtain rfl := Except.ok.inj h
      exact hrun false _ hr (by rwa [hr] at hs)
    · simp at h
    · simp at h
  rw [resolve] at h
  rw [Grammar.refusals] at hcalm
  split at h
  · next hfeasible =>
    rw [if_pos hfeasible] at hcalm
    split at h
    · next hr =>
      rw [hr] at hcalm
      obtain rfl := Except.ok.inj h
      exact hrun true _ hr hcalm
    · next hr =>
      rw [hr] at hcalm
      exact hfully _ h (Nat.add_eq_zero_iff.1 hcalm).2
    · simp at h
  · next hfeasible =>
    rw [if_neg hfeasible] at hcalm
    exact hfully _ h hcalm

end Tessera
