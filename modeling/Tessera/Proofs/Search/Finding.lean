/-
**Parts that are found on their own.**

The free search does not know what is around a part, so a part that it finds inside of a whole it also
finds on its own, over the range of the part.  When nothing is refused, the split of a text is that of
the free search, and then every part of it, at any depth, is the split that the search finds over the
range of the part.

Main definitions:

* `Tessera.Series` — what a loop repeats;
* `Tessera.Grammar.Finds` — the free search finds a split over its range.

Main results:

* `Tessera.Query.plainChoice_least` — a choice takes the first alternative that brings a part;
* `Tessera.Query.plainShape_parts` — the parts of a split that is found are found on their own;
* `Tessera.Grammar.Finds.inside` — **the same at any depth**;
* `Tessera.finds_of_resolve` — when nothing is refused, the free search finds the split of a text.
-/

import Tessera.Proofs.Search.Feasibility
import Tessera.Proofs.Search.LeftRecursion

set_option autoImplicit false

namespace Tessera

/-! ### Choices -/

/-- A choice takes the first alternative that brings a part. -/
theorem Query.plainChoice_least {q : Query} (hprune : q.prune = false) {parse : PlainParse}
    {start stop : Nat} {alternatives : List DefId} {index : Nat} {s : Split}
    (h : q.plainChoice parse start stop alternatives index = some s) :
    ∃ i a inner, s = .choice ⟨start, stop⟩ (index + i) inner ∧ alternatives[i]? = some a ∧
      parse a start stop = some inner ∧
      ∀ j < i, ∀ b, alternatives[j]? = some b → parse b start stop = none := by
  induction alternatives generalizing index with
  | nil => simp [plainChoice] at h
  | cons a as ih =>
      have hskip : ¬ (q.prune && !q.grammar.feasible a (q.slice start stop)) = true := by
        simp [hprune]
      rw [plainChoice, if_neg hskip, Option.or_eq_some_iff] at h
      rcases h with h | ⟨hnone, h⟩
      · obtain ⟨inner, hinner, rfl⟩ := Option.map_eq_some_iff.1 h
        exact ⟨0, a, inner, rfl, rfl, hinner, fun j hj => absurd hj (Nat.not_lt_zero j)⟩
      · obtain ⟨i, b, inner, rfl, hb, hinner, hbefore⟩ := ih h
        refine ⟨i + 1, b, inner, by rw [Nat.add_assoc, Nat.add_comm 1], by simpa using hb, hinner,
          fun j hj c hc => ?_⟩
        cases j with
        | zero =>
            obtain rfl : a = c := by simpa using hc
            exact Option.map_eq_none_iff.1 hnone
        | succ j => exact hbefore j (by omega) c (by simpa using hc)

/-! ### Parts of parts -/

/-- What a loop repeats: its items, the separator between them if there is one, and how often. -/
structure Series where
  item : DefId
  separator : Option DefId
  repetition : Repetition

/-- The definition of the element after `n` others. -/
def Series.definition (l : Series) (n : Nat) : DefId :=
  match l.separator with
  | some separator => if n % 2 = 1 then separator else l.item
  | none => l.item

/-- What a loop repeats. -/
def LoopPlan.series (p : LoopPlan) : Series := ⟨p.item, p.separator, p.repetition⟩

theorem LoopPlan.element_eq (p : LoopPlan) (trail : List Split) :
    p.element trail = p.series.definition trail.length := by
  rw [element, Series.definition, series]
  cases hsep : p.separator with
  | none => rfl
  | some separator => simp [expectsSeparator, hsep]

/-- The items and separators of a separated loop in turn are its elements. -/
theorem LoopPlan.exists_getElem?_of_mem_interleave {a b : DefId} {u : Split} {f : DefId} :
    ∀ {elements : List Split},
      (u, f) ∈ interleave ((items elements).map (·, a)) ((separators elements).map (·, b)) →
        ∃ i, elements[i]? = some u ∧ f = if i % 2 = 1 then b else a
  | [], h => by simp [items, separators, interleave] at h
  | [s], h => by
      simp only [items, separators, interleave, List.map_cons, List.map_nil, List.mem_singleton,
        Prod.mk.injEq] at h
      obtain ⟨rfl, rfl⟩ := h
      exact ⟨0, rfl, rfl⟩
  | s :: t :: rest, h => by
      simp only [items, separators, interleave, List.map_cons, List.mem_cons, Prod.mk.injEq] at h
      rcases h with ⟨rfl, rfl⟩ | ⟨rfl, rfl⟩ | h
      · exact ⟨0, rfl, rfl⟩
      · exact ⟨1, rfl, rfl⟩
      · obtain ⟨i, hi, rfl⟩ := exists_getElem?_of_mem_interleave h
        exact ⟨i + 2, by simpa using hi, by rw [Nat.add_mod_right]⟩

/-- The parts of a loop are its elements. -/
theorem LoopPlan.exists_getElem?_of_mem_parts {g : Grammar} {d : DefId} {p : LoopPlan}
    (hshape : g.Repeats d p.item p.separator p.repetition) {elements : List Split} {u : Split}
    {f : DefId} (h : (u, f) ∈ (p.toSplit elements).parts g d) :
    ∃ i, elements[i]? = some u ∧ f = p.series.definition i := by
  rw [toSplit] at h
  cases hsep : p.separator with
  | none =>
      rw [hsep] at hshape
      have hshape : g.shape d = .loop p.item p.repetition := hshape
      simp only [hsep, Option.isSome_none, Bool.false_eq_true, if_false, Split.parts, hshape,
        List.mem_map, Prod.mk.injEq] at h
      obtain ⟨u, hu, rfl, rfl⟩ := h
      obtain ⟨i, hi⟩ := List.mem_iff_getElem?.1 hu
      exact ⟨i, hi, by rw [series, Series.definition, hsep]⟩
  | some separator =>
      rw [hsep] at hshape
      obtain ⟨default, hshape⟩ := hshape
      simp only [hsep, Option.isSome_some, if_true, Split.parts, hshape] at h
      obtain ⟨i, hi, rfl⟩ := exists_getElem?_of_mem_interleave h
      exact ⟨i, hi, by rw [series, Series.definition, hsep]⟩

namespace Query

variable {q : Query} {parse : PlainParse}
  (hspan : ∀ {d s e x}, parse d s e = some x → x.span = ⟨s, e⟩)
include hspan

theorem plainSequence_parts {stop : Nat} {follows : Array Filter} {items : List DefId}
    {k cursor : Nat} {parts : List Split}
    (h : q.plainSequence parse stop follows items k cursor = some parts) {u : Split} {f : DefId}
    (hu : (u, f) ∈ parts.zip items) : parse f u.span.start u.span.stop = some u := by
  induction items generalizing k cursor parts with
  | nil => simp at hu
  | cons item items ih =>
      rw [plainSequence] at h
      obtain ⟨e, -, h⟩ := List.exists_of_findSome?_eq_some h
      obtain ⟨part, hpart, h⟩ := Option.bind_eq_some_iff.1 h
      obtain ⟨rest, hrest, rfl⟩ := Option.map_eq_some_iff.1 h
      rw [List.zip_cons_cons, List.mem_cons, Prod.mk.injEq] at hu
      rcases hu with ⟨rfl, rfl⟩ | hu
      · rw [hspan hpart]
        exact hpart
      · exact ih hrest hu

theorem plainExtend_parts {p : LoopPlan} {fuel : Nat} {trail : List Split} {cursor : Nat}
    {elements : List Split} (h : q.plainExtend parse p fuel trail cursor = some elements)
    (htrail : ∀ i s, trail.reverse[i]? = some s →
      parse (p.series.definition i) s.span.start s.span.stop = some s) (i : Nat) (s : Split)
    (hs : elements[i]? = some s) : parse (p.series.definition i) s.span.start s.span.stop = some s := by
  induction fuel generalizing trail cursor with
  | zero => simp [plainExtend] at h
  | succ fuel ih =>
      rw [plainExtend] at h
      split at h
      · obtain rfl := Option.some.inj h
        exact htrail i s hs
      split at h
      · simp at h
      obtain ⟨e, -, h⟩ := List.exists_of_findSome?_eq_some h
      obtain ⟨part, hpart, h⟩ := Option.bind_eq_some_iff.1 h
      refine ih h fun j t ht => ?_
      rw [List.reverse_cons, List.getElem?_append, List.length_reverse] at ht
      split at ht
      · exact htrail j t ht
      · next hj =>
        rw [List.getElem?_singleton, Option.ite_none_right_eq_some] at ht
        obtain ⟨hj', rfl⟩ : j = trail.length ∧ part = t := ⟨by omega, Option.some.inj ht.2⟩
        rw [hspan hpart, hj', ← p.element_eq]
        exact hpart

/-- The parts of a split that is found are found on their own. -/
theorem plainShape_parts (hprune : q.prune = false) {fuel : Nat} {d : DefId} {start stop : Nat} {s : Split}
    (h : q.plainShape parse fuel d start stop = some s) {u : Split} {f : DefId}
    (hu : (u, f) ∈ s.parts q.grammar d) : parse f u.span.start u.span.stop = some u := by
  have hleaf : ∀ fits, plainLeaf start stop fits = some s → (u, f) ∉ s.parts q.grammar d := by
    intro fits hs hu
    rw [plainLeaf, Option.ite_none_right_eq_some] at hs
    rw [← Option.some.inj hs.2] at hu
    simp [Split.parts] at hu
  have hloop : ∀ p : LoopPlan, q.grammar.Repeats d p.item p.separator p.repetition →
      q.plainLoop parse p fuel = some s → parse f u.span.start u.span.stop = some u := by
    intro p hshape hs
    obtain ⟨elements, helements, rfl⟩ := Option.map_eq_some_iff.1 hs
    obtain ⟨i, hi, rfl⟩ := LoopPlan.exists_getElem?_of_mem_parts hshape hu
    exact plainExtend_parts hspan helements (by simp) i u hi
  rw [plainShape] at h
  cases hshape : q.grammar.shape d with
  | literal text => rw [hshape] at h; exact absurd hu (hleaf _ h)
  | pattern source => rw [hshape] at h; exact absurd hu (hleaf _ h)
  | empty => rw [hshape] at h; exact absurd hu (hleaf _ h)
  | sequence items =>
      rw [hshape] at h
      obtain ⟨parts, hparts, rfl⟩ := Option.map_eq_some_iff.1 h
      simp only [Split.parts, hshape] at hu
      exact plainSequence_parts hspan hparts hu
  | choice alternatives =>
      rw [hshape] at h
      obtain ⟨i, a, inner, rfl, ha, hinner, -⟩ := plainChoice_least hprune h
      simp only [Split.parts, hshape, Nat.zero_add, ha, Option.toList_some, List.map_cons,
        List.map_nil, List.mem_singleton, Prod.mk.injEq] at hu
      obtain ⟨rfl, rfl⟩ := hu
      rw [hspan hinner]
      exact hinner
  | optional item quantifier =>
      rw [hshape] at h
      dsimp only at h
      split at h
      · rw [← Option.some.inj h] at hu
        simp [Split.parts] at hu
      · obtain ⟨inner, hinner, rfl⟩ := Option.map_eq_some_iff.1 h
        simp only [Split.parts, hshape, List.mem_singleton, Prod.mk.injEq] at hu
        obtain ⟨rfl, rfl⟩ := hu
        rw [hspan hinner]
        exact hinner
  | loop item r =>
      rw [hshape] at h
      exact hloop (q.loopPlan d item none r start stop) hshape h
  | separated item separator default r =>
      rw [hshape] at h
      exact hloop (q.loopPlan d item (some separator) r start stop) ⟨default, hshape⟩ h
  | «alias» target name => rw [hshape] at h; cases h
  | forward target => rw [hshape] at h; cases h
  | withDefault content target => rw [hshape] at h; cases h

end Query

namespace Split

/-- The definitions of the parts are those that the rule mentions. -/
theorem mem_references_of_parts {g : Grammar} {d : DefId} {s u : Split} {f : DefId}
    (hu : (u, f) ∈ s.parts g d) : f ∈ (g.shape d).references := by
  unfold parts at hu
  split at hu
  · next items _ hshape =>
    rw [hshape]
    exact (List.of_mem_zip hu).2
  · next alternatives _ index _ hshape =>
    rw [hshape]
    simp only [List.mem_map, Option.mem_toList, Prod.mk.injEq] at hu
    obtain ⟨a, ha, -, rfl⟩ := hu
    exact List.mem_of_getElem? ha
  · next hshape =>
    rw [hshape]
    obtain ⟨-, rfl⟩ := Prod.mk.inj (List.mem_singleton.1 hu)
    exact List.mem_singleton_self _
  · next hshape =>
    rw [hshape]
    obtain ⟨_, -, heq⟩ := List.mem_map.1 hu
    obtain ⟨-, rfl⟩ := Prod.mk.inj heq
    exact List.mem_singleton_self _
  · next hshape =>
    rw [hshape]
    rcases mem_of_mem_interleave hu with hu | hu
    · obtain ⟨_, -, heq⟩ := List.mem_map.1 hu
      obtain ⟨-, rfl⟩ := Prod.mk.inj heq
      exact List.mem_cons_self
    · obtain ⟨_, -, heq⟩ := List.mem_map.1 hu
      obtain ⟨-, rfl⟩ := Prod.mk.inj heq
      exact List.mem_cons_of_mem _ (List.mem_singleton_self _)
  · simp at hu

end Split

namespace Grammar

/-- The free search finds the split over its own range. -/
structure Finds (g : Grammar) (text : Text) (d : DefId) (s : Split) : Prop where
  definition : d < g.size
  range : IsRange text s.span.start s.span.stop
  found : Eventually (fun fuel => (g.query text).free fuel d s.span.start s.span.stop) s

variable {g : Grammar} {text : Text} {d : DefId} {s : Split}

/-- The rule of the definition finds the split in parts that the free search finds. -/
theorem Finds.shape (h : g.Finds text d s) : ∃ bound, ∀ fuel, bound ≤ fuel →
    (g.query text).plainShape ((g.query text).free fuel) fuel d s.span.start s.span.stop =
      some s := by
  obtain ⟨bound, hbound⟩ := h.found
  exact ⟨bound, fun fuel hfuel => hbound (fuel + 1) (by omega)⟩

/-- The split is a derivation. -/
theorem Finds.fits (hg : g.Valid) (h : g.Finds text d s) : s.Fits g text d := by
  obtain ⟨fuel, hfuel⟩ := h.found.exists
  exact (Query.free_fits (q := g.query text) hg fuel d _ _ s h.range hfuel).2

/-- **The parts of a split are found on their own**, at any depth. -/
theorem Finds.inside (hg : g.Valid) (h : g.Finds text d s) {u : Split} {e : DefId}
    (hu : s.Inside g d u e) : g.Finds text e u := by
  induction hu with
  | whole => exact h
  | part _ hpart ih =>
      obtain ⟨bound, hbound⟩ := ih.shape
      exact ⟨hg.references_shape (Split.mem_references_of_parts hpart),
        ((ih.fits hg).parts hpart).isRange,
        bound, fun fuel hfuel => Query.plainShape_parts (q := g.query text) Query.free_span rfl
          (hbound fuel hfuel) hpart⟩

end Grammar

/-! ### Whole texts -/

/-- When nothing is refused, the free search finds the split of a text, down to every part. -/
theorem finds_of_resolve {g : Grammar} (hg : g.Valid) (hreg : g.Regular)
    (hlimit : g.limits.recursionLimit = none) {d : DefId} (hd : d < g.size) {text : Text}
    (hcalm : g.refusals d text = 0 ∨ ¬ g.LeftRecursive) {split : Split}
    (h : (resolve g d text).result = .ok split) : g.Finds text d split := by
  have hcalm : g.refusals d text = 0 :=
    hcalm.elim id fun hleft => refusals_eq_zero hg hleft d text
  have hfound := free_of_resolve hg hreg hlimit hd hcalm h
  obtain ⟨fuel, hfuel⟩ := hfound.exists
  have hspan := Query.free_span hfuel
  refine ⟨hd, ?_, ?_⟩ <;> rw [hspan]
  · exact IsRange.whole text
  · exact hfound

end Tessera
