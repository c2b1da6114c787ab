/-
**Every split that is found is a derivation.**

The plain search builds a split from the parts that it accepts, so what it accepts fits as soon as
the parts fit.  A loop builds its elements one after the other; what fits there is said of the
elements that follow those which are found already.

Main definitions:

* `Tessera.Query.FittingParts` — a search of parts that finds derivations only;
* `Tessera.Query.ElementsFit` — elements of a loop that fit after those found before.

Main results:

* `Tessera.Query.plainShape_fits` — parts that fit make a whole that fits;
* `Tessera.Query.plain_fits` — what the plain search accepts is a derivation;
* `Tessera.resolve_fits` — **the split of a text is a derivation**, whatever the limits are.
-/

import Tessera.Proofs.Search.Agreement
import Tessera.Proofs.Search.Fitting

set_option autoImplicit false

namespace Tessera

open Attempt

/-- The definition is a loop of the item, with the separator if there is one. -/
def Grammar.Repeats (g : Grammar) (d item : DefId) (separator : Option DefId) (r : Repetition) :
    Prop :=
  match separator with
  | none => g.shape d = .loop item r
  | some separator => ∃ default, g.shape d = .separated item separator default r

namespace Query

variable {q : Query} {parse : PlainParse} {fuel : Nat}

/-- What a search of parts accepts over a range has that range and fits. -/
def FittingParts (q : Query) (parse : PlainParse) : Prop :=
  ∀ d start stop s, IsRange q.text start stop → parse d start stop = some s →
    s.span = ⟨start, stop⟩ ∧ s.Fits q.grammar q.text d

/-! ### Sequences and choices -/

theorem plainSequence_fits (hg : q.grammar.Valid) (hparse : q.FittingParts parse) {stop : Nat}
    {follows : Array Filter} {items : List DefId} {k cursor : Nat} {parts : List Split}
    (hrange : IsRange q.text cursor stop)
    (h : q.plainSequence parse stop follows items k cursor = some parts) :
    Tiles cursor stop parts ∧ Split.FitAll q.grammar q.text parts items := by
  induction items generalizing k cursor parts with
  | nil =>
      rw [plainSequence, Option.ite_none_right_eq_some] at h
      obtain ⟨hend, hparts⟩ := h
      rw [← Option.some.inj hparts]
      exact ⟨hend, rfl⟩
  | cons item items ih =>
      rw [plainSequence] at h
      obtain ⟨e, he, h⟩ := List.exists_of_findSome?_eq_some h
      obtain ⟨part, hpart, h⟩ := Option.bind_eq_some_iff.1 h
      obtain ⟨rest, hrest, rfl⟩ := Option.map_eq_some_iff.1 h
      obtain ⟨hleft, hright⟩ :=
        isRange_of_mem_allEnds hg hrange (mem_allEnds_of_ends (List.mem_filter.1 he).1)
      obtain ⟨hspan, hfits⟩ := hparse item cursor e part hleft hpart
      obtain ⟨htiles, hall⟩ := ih hright hrest
      exact ⟨⟨by rw [hspan], by rwa [hspan]⟩, item, items, rfl, hfits, hall⟩

theorem plainChoice_fits (hparse : q.FittingParts parse) {start stop : Nat}
    {alternatives : List DefId} {index : Nat} {s : Split} (hrange : IsRange q.text start stop)
    (h : q.plainChoice parse start stop alternatives index = some s) :
    ∃ i a inner, s = .choice ⟨start, stop⟩ (index + i) inner ∧ alternatives[i]? = some a ∧
      inner.span = ⟨start, stop⟩ ∧ inner.Fits q.grammar q.text a := by
  induction alternatives generalizing index with
  | nil => simp [plainChoice] at h
  | cons a as ih =>
      rw [plainChoice, Option.or_eq_some_iff] at h
      rcases h with h | ⟨_, h⟩
      · obtain ⟨inner, hinner, rfl⟩ := Option.map_eq_some_iff.1 h
        rw [Option.ite_none_left_eq_some] at hinner
        obtain ⟨hspan, hfits⟩ := hparse a start stop inner hrange hinner.2
        exact ⟨0, a, inner, rfl, rfl, hspan, hfits⟩
      · obtain ⟨i, b, inner, rfl, hb, hfits⟩ := ih h
        exact ⟨i + 1, b, inner, by rw [Nat.add_assoc, Nat.add_comm 1], by simpa using hb, hfits⟩

/-! ### Loops -/

/-- The elements fit the definitions that a loop asks for after those of `trail`. -/
def ElementsFit (q : Query) (p : LoopPlan) : List Split → List Split → Prop
  | _, [] => True
  | trail, s :: ss => s.Fits q.grammar q.text (p.element trail) ∧ ElementsFit q p (s :: trail) ss

/-- A loop that is found consists of the elements before and of further ones that fit, lie side by
side up to the end, and complete it. -/
theorem plainExtend_fits (hg : q.grammar.Valid) (hparse : q.FittingParts parse) {p : LoopPlan}
    {trail : List Split} {cursor : Nat} {elements : List Split}
    (hrange : IsRange q.text cursor p.stop)
    (h : q.plainExtend parse p fuel trail cursor = some elements) :
    ∃ further, elements = trail.reverse ++ further ∧ Tiles cursor p.stop further ∧
      q.ElementsFit p trail further ∧ p.isComplete (further.reverse ++ trail) p.stop = true := by
  induction fuel generalizing trail cursor with
  | zero => simp [plainExtend] at h
  | succ fuel ih =>
      rw [plainExtend] at h
      split at h
      · next hcomplete =>
        have hcursor : cursor = p.stop := by
          simp only [LoopPlan.isComplete, Bool.and_eq_true, beq_iff_eq] at hcomplete
          exact hcomplete.1.1
        subst hcursor
        exact ⟨[], by simpa using (Option.some.inj h).symm, rfl, trivial, hcomplete⟩
      split at h
      · simp at h
      obtain ⟨e, he, h⟩ := List.exists_of_findSome?_eq_some h
      obtain ⟨part, hpart, h⟩ := Option.bind_eq_some_iff.1 h
      obtain ⟨hleft, hright⟩ := isRange_of_mem_allEnds hg hrange (mem_allEnds_of_loopEnds he)
      obtain ⟨hspan, hfits⟩ := hparse _ cursor e part hleft hpart
      obtain ⟨further, rfl, htiles, helements, hcomplete⟩ := ih hright h
      refine ⟨part :: further, by simp, ⟨by rw [hspan], by rwa [hspan]⟩, ⟨hfits, helements⟩, ?_⟩
      simpa using hcomplete

/-- Without a separator every element is an item. -/
theorem fitEach_of_elementsFit {p : LoopPlan} (hsep : p.separator = none) {trail ss : List Split}
    (h : q.ElementsFit p trail ss) : Split.FitEach q.grammar q.text ss p.item := by
  induction ss generalizing trail with
  | nil => trivial
  | cons s ss ih =>
      refine ⟨?_, ih h.2⟩
      have hs := h.1
      rwa [LoopPlan.element, hsep] at hs

/-- With a separator the elements after an even number of them are items and separators in turn. -/
theorem fitEach_items_separators {p : LoopPlan} {separator : DefId}
    (hsep : p.separator = some separator) :
    ∀ (ss trail : List Split), trail.length % 2 = 0 → q.ElementsFit p trail ss →
      Split.FitEach q.grammar q.text (LoopPlan.items ss) p.item ∧
        Split.FitEach q.grammar q.text (LoopPlan.separators ss) separator
  | [], _, _, _ => ⟨trivial, trivial⟩
  | [s], trail, htrail, h => by
      have hs := h.1
      rw [LoopPlan.element, hsep] at hs
      simp only [LoopPlan.expectsSeparator, hsep, htrail] at hs
      exact ⟨⟨hs, trivial⟩, trivial⟩
  | s :: t :: ss, trail, htrail, h => by
      obtain ⟨hs, ht, hrest⟩ := h
      have hnext : (s :: trail).length % 2 = 1 := by simp only [List.length_cons]; omega
      have hafter : (t :: s :: trail).length % 2 = 0 := by simp only [List.length_cons]; omega
      rw [LoopPlan.element, hsep] at hs ht
      simp only [LoopPlan.expectsSeparator, hsep, htrail, hnext] at hs ht
      obtain ⟨hitems, hseparators⟩ := fitEach_items_separators hsep ss _ hafter hrest
      exact ⟨⟨hs, hitems⟩, ⟨ht, hseparators⟩⟩

/-- Elements that complete a loop, as the split that they make up. -/
theorem toSplit_fits {d : DefId} {p : LoopPlan} {elements : List Split}
    (hrange : IsRange q.text p.start p.stop)
    (hshape : q.grammar.Repeats d p.item p.separator p.repetition)
    (htiles : Tiles p.start p.stop elements) (hfit : q.ElementsFit p [] elements)
    (hcomplete : p.isComplete elements.reverse p.stop = true) :
    (p.toSplit elements).Fits q.grammar q.text d := by
  rw [LoopPlan.isComplete, Bool.and_eq_true, Bool.and_eq_true] at hcomplete
  obtain ⟨⟨_, hends⟩, hadmits⟩ := hcomplete
  rw [LoopPlan.toSplit]
  cases hsep : p.separator with
  | none =>
      rw [hsep] at hshape
      simp only [LoopPlan.count, hsep, List.length_reverse] at hadmits
      rw [if_neg (by simp), Split.Fits]
      exact ⟨hrange, htiles, _, _, hshape, hadmits, fitEach_of_elementsFit hsep hfit⟩
  | some separator =>
      rw [hsep] at hshape
      obtain ⟨default, hshape⟩ := hshape
      simp only [LoopPlan.count, hsep, List.length_reverse, Option.isSome_some, if_true] at hadmits
      have hodd : elements = [] ∨ elements.length % 2 = 1 := by
        cases hcons : elements with
        | nil => exact .inl rfl
        | cons x xs =>
            simp only [LoopPlan.endsWithSeparator, LoopPlan.expectsSeparator, hsep, hcons,
              Option.isSome_some, Bool.true_and, List.length_reverse, List.isEmpty_reverse,
              List.isEmpty_cons, Bool.not_false, Bool.not_not, beq_iff_eq] at hends
            exact .inr hends
      obtain ⟨hitems, hseparators⟩ := fitEach_items_separators hsep elements [] rfl hfit
      rw [if_pos (by simp), Split.Fits]
      refine ⟨hrange, by rwa [LoopPlan.interleave_items_separators], _, _, _, _, hshape, ?_, ?_,
        hitems, hseparators⟩
      · rwa [LoopPlan.length_items]
      · rw [LoopPlan.length_items, LoopPlan.length_separators]
        rcases hodd with rfl | hodd
        · rfl
        · omega

/-- The elements of a loop that is found, as the split that they make up. -/
theorem plainLoop_fits (hg : q.grammar.Valid) (hparse : q.FittingParts parse) {d : DefId}
    {p : LoopPlan} {s : Split} (hrange : IsRange q.text p.start p.stop)
    (hshape : q.grammar.Repeats d p.item p.separator p.repetition)
    (h : q.plainLoop parse p fuel = some s) : s.Fits q.grammar q.text d := by
  obtain ⟨elements, helements, rfl⟩ := Option.map_eq_some_iff.1 h
  obtain ⟨_, rfl, htiles, hfit, hcomplete⟩ := plainExtend_fits hg hparse hrange helements
  rw [List.append_nil] at hcomplete
  exact toSplit_fits hrange hshape htiles hfit hcomplete

/-! ### Leaves -/

section Leaves

variable {d : DefId} {start stop : Nat} (hrange : IsRange q.text start stop)
include hrange

theorem literal_fits {text : Text} (hshape : q.grammar.shape d = .literal text)
    (h : (q.slice start stop == text) = true) :
    (Split.leaf ⟨start, stop⟩).Fits q.grammar q.text d := by
  rw [Split.Fits, Grammar.LeafFits, hshape]
  exact ⟨hrange, eq_of_beq h⟩

theorem pattern_fits (hg : q.grammar.Valid) {source : Text}
    (hshape : q.grammar.shape d = .pattern source)
    (h : q.grammar.leafMatches d (q.slice start stop) = true) :
    (Split.leaf ⟨start, stop⟩).Fits q.grammar q.text d := by
  obtain ⟨_, isMatch, hmatch, hleaf⟩ := hg.pattern _ source hshape
  rw [Split.Fits, Grammar.LeafFits, hshape]
  refine ⟨hrange, isMatch, hmatch, ?_⟩
  rw [← hleaf]
  exact h

theorem empty_fits (hshape : q.grammar.shape d = .empty) (h : (start == stop) = true) :
    (Split.leaf ⟨start, stop⟩).Fits q.grammar q.text d := by
  obtain rfl : start = stop := eq_of_beq h
  rw [Split.Fits, Grammar.LeafFits, hshape]
  exact ⟨hrange, slice?_self_eq hrange.slice?⟩

end Leaves

/-! ### Definitions -/

/-- **Parts that fit make a whole that fits.** -/
theorem plainShape_fits (hg : q.grammar.Valid) (hparse : q.FittingParts parse) {d : DefId}
    {start stop : Nat} {s : Split} (hrange : IsRange q.text start stop)
    (h : q.plainShape parse fuel d start stop = some s) : s.Fits q.grammar q.text d := by
  have hspan := plainShape_span h
  have hleaf : ∀ fits, plainLeaf start stop fits = some s → fits = true ∧ s = .leaf ⟨start, stop⟩ := by
    intro fits hs
    rw [plainLeaf, Option.ite_none_right_eq_some] at hs
    exact ⟨hs.1, (Option.some.inj hs.2).symm⟩
  rw [plainShape] at h
  cases hshape : q.grammar.shape d with
  | literal text =>
      rw [hshape] at h
      obtain ⟨hfits, rfl⟩ := hleaf _ h
      exact literal_fits hrange hshape hfits
  | pattern source =>
      rw [hshape] at h
      obtain ⟨hfits, rfl⟩ := hleaf _ h
      exact pattern_fits hrange hg hshape hfits
  | empty =>
      rw [hshape] at h
      obtain ⟨hfits, rfl⟩ := hleaf _ h
      exact empty_fits hrange hshape hfits
  | sequence items =>
      rw [hshape] at h
      obtain ⟨parts, hparts, rfl⟩ := Option.map_eq_some_iff.1 h
      obtain ⟨htiles, hall⟩ := plainSequence_fits hg hparse hrange hparts
      rw [Split.Fits]
      exact ⟨hrange, htiles, items, hshape, hall⟩
  | choice alternatives =>
      rw [hshape] at h
      obtain ⟨i, a, inner, rfl, ha, hinner, hfits⟩ := plainChoice_fits hparse hrange h
      rw [Split.Fits]
      exact ⟨hrange, hinner, alternatives, a, hshape, by simpa using ha, hfits⟩
  | optional item quantifier =>
      rw [hshape] at h
      dsimp only at h
      split at h
      · next hempty =>
        rw [← Option.some.inj h, Split.Fits]
        exact ⟨hrange, hempty, item, quantifier, hshape⟩
      · next hne =>
        obtain ⟨inner, hinner, rfl⟩ := Option.map_eq_some_iff.1 h
        obtain ⟨hspan, hfits⟩ := hparse item start stop inner hrange hinner
        rw [Split.Fits]
        exact ⟨hrange, Nat.lt_of_le_of_ne hrange.le hne, hspan, item, quantifier, hshape, hfits⟩
  | loop item repetition =>
      rw [hshape] at h
      exact plainLoop_fits hg hparse (p := q.loopPlan d item none repetition start stop) hrange
        hshape h
  | separated item separator default repetition =>
      rw [hshape] at h
      exact plainLoop_fits hg hparse
        (p := q.loopPlan d item (some separator) repetition start stop) hrange ⟨default, hshape⟩ h
  | «alias» target name => rw [hshape] at h; simp at h
  | forward target => rw [hshape] at h; simp at h
  | withDefault content target => rw [hshape] at h; simp at h

/-- What the plain search accepts is a derivation. -/
theorem plain_fits (hg : q.grammar.Valid) (fuel : Nat) (active : List Part) :
    q.FittingParts (q.plain fuel active) := by
  induction fuel generalizing active with
  | zero => intro d start stop s _ h; simp [plain] at h
  | succ fuel ih =>
      intro d start stop s hrange h
      refine ⟨plain_span h, ?_⟩
      rw [plain] at h
      split at h
      · simp at h
      · exact plainShape_fits hg (ih _) hrange h

/-- What a search finds is a derivation over the whole text. -/
theorem run_fits (hg : q.grammar.Valid) {d : DefId} {s : Split} (h : (q.run d).1 = .ok s) :
    s.span = ⟨0, byteLength q.text⟩ ∧ s.Fits q.grammar q.text d := by
  obtain ⟨fuel, hfuel⟩ := run_ok hg h
  exact plain_fits hg fuel [] d 0 _ s (IsRange.whole q.text) hfuel

end Query

/-- A split of a text comes from one of the two searches for it. -/
theorem resolve_ok {g : Grammar} {d : DefId} {text : Text} {s : Split}
    (h : (resolve g d text).result = .ok s) :
    ∃ prune, (Query.run ⟨g, text, prune⟩ d).1 = .ok s := by
  have hfully : ∀ before, (resolveFully g d text before).result = .ok s →
      ∃ prune, (Query.run ⟨g, text, prune⟩ d).1 = .ok s := by
    intro before h
    rw [resolveFully] at h
    split at h
    · next hr => exact ⟨false, by rw [hr]; simpa using h⟩
    · simp at h
    · simp at h
  rw [resolve] at h
  split at h
  · split at h
    · next hr => exact ⟨true, by rw [hr]; simpa using h⟩
    · exact hfully _ h
    · simp at h
  · exact hfully _ h

/-- **The split of a text is a derivation**: for every grammar, whatever its limits are, it covers
the whole text and fits the definition. -/
theorem resolve_fits {draft : Draft} {g : Grammar} (hbuild : draft.build = .ok g) {d : DefId}
    {text : Text} {split : Split} (h : (resolve g d text).result = .ok split) :
    split.span = ⟨0, byteLength text⟩ ∧ split.Fits g text d := by
  obtain ⟨prune, hrun⟩ := resolve_ok h
  exact Query.run_fits (Draft.build_valid hbuild) hrun

/-- When the whole text matches the pattern of the definition, the first search decides. -/
theorem resolve_of_run {g : Grammar} {d : DefId} {text : Text} {s : Split}
    (hfeasible : g.feasible d text = true) (h : (Query.run ⟨g, text, true⟩ d).1 = .ok s) :
    (resolve g d text).result = .ok s := by
  rw [resolve, if_pos hfeasible]
  split
  · next hr => simpa [hr] using h
  · next hr => simp [hr] at h
  · next hr => simp [hr] at h

theorem rowGrammar_feasible : rowGrammar.feasible 0 ['a', 'a'] = true := by decide +kernel

/-- A row of two letters is split. -/
theorem resolve_fits_row :
    (resolve rowGrammar 0 ['a', 'a']).result = .ok rowSplit ∧
      rowSplit.Fits rowGrammar ['a', 'a'] 0 := by
  have hresult := resolve_of_run rowGrammar_feasible run_row
  exact ⟨hresult, (resolve_fits rowDraft_build hresult).2⟩

end Tessera
