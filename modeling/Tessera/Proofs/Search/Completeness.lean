/-
**Every text of a definition is accepted.**

A text that a definition denotes does so in a least number of steps.  The parts of such a derivation
need fewer steps than the whole, so none of them is the whole again: the search never refuses to
enter them.  In this way the guard against left recursion loses nothing.

Inside of one definition the search follows the derivation.  The ends of the parts are among the
candidates, because no matcher rules out what a definition denotes.  A loop does not try elements
that bring nothing once there are enough items; in a derivation these can be left away.

A possessive repetition gives up candidates on purpose, and a condition on a position may rule out
too much, so neither is admitted here.

Main definitions:

* `Tessera.Grammar.NonPossessive` — no repetition is possessive;
* `Tessera.Query.Found` — something is found with enough fuel;
* `Tessera.Query.Completes` — a loop is completed with enough fuel.

Main results:

* `Tessera.Query.loop_completes`, `Tessera.Query.separated_completes` — loops follow a derivation;
* `Tessera.Query.plain_found` — **a derivation is found inside of parts that need more steps**;
* `Tessera.resolve_complete` — **every text of a definition is accepted**;
* `Tessera.resolve_ok_iff_derives` — a definition accepts the texts that it denotes and no others.
-/

import Tessera.Proofs.Search.Pruning

set_option autoImplicit false

namespace Tessera

/-- No repetition of the grammar is possessive. -/
def Grammar.NonPossessive (g : Grammar) : Prop :=
  ∀ d, (g.rule d).quantifier? ≠ some .possessive

/-! ### Candidates -/

/-- Only a possessive quantifier gives candidates up. -/
theorem Quantifier.mem_order {quantifier : Quantifier} (h : quantifier ≠ .possessive) {ends : List Nat}
    {e : Nat} (he : e ∈ ends) : e ∈ quantifier.order ends := by
  cases quantifier with
  | greedy => exact List.mem_reverse.2 he
  | lazy => exact he
  | possessive => exact absurd rfl h

theorem LoopPlan.mem_itemOrder {p : LoopPlan} (h : p.repetition.quantifier ≠ .possessive)
    {cursor : Nat} {ends : List Nat} {e : Nat} (he : e ∈ ends) : e ∈ p.itemOrder cursor ends := by
  unfold itemOrder
  split
  · split
    · split
      · simp only [List.cons_append, List.mem_append, List.mem_cons, List.not_mem_nil,
          or_false] at he ⊢
        tauto
      · exact he
    · exact he
  · exact Quantifier.mem_order (by simp) he
  · next hquantifier => exact absurd hquantifier h

namespace LoopPlan

variable {p : LoopPlan} {separator : DefId} {trail : List Split} {n : Nat}

/-- A loop that admits another item is not full. -/
theorem isFull_eq_false (h : ∀ max, p.repetition.max = some max → p.count trail < max) :
    p.isFull trail = false := by
  unfold isFull
  cases hmax : p.repetition.max with
  | none => simp
  | some max =>
      have := h max hmax
      simp
      omega

section Separated

variable (hseparator : p.separator = some separator)
include hseparator

theorem expectsSeparator_of_odd (h : trail.length + 1 = 2 * n) :
    p.expectsSeparator trail = true := by
  have hodd : trail.length % 2 = 1 := by omega
  simp [expectsSeparator, hseparator, hodd]

theorem expectsSeparator_of_even (h : trail.length = 2 * n) : p.expectsSeparator trail = false := by
  have heven : trail.length % 2 = 0 := by omega
  simp [expectsSeparator, hseparator, heven]

theorem endsWithSeparator_of_odd (h : trail.length + 1 = 2 * n) :
    p.endsWithSeparator trail = false := by
  rw [endsWithSeparator, expectsSeparator_of_odd hseparator h]
  simp

theorem count_of_odd (h : trail.length + 1 = 2 * n) : p.count trail = n := by
  simp only [count, hseparator, Option.isSome_some, if_true]
  omega

theorem count_of_even (h : trail.length = 2 * n) : p.count trail = n := by
  simp only [count, hseparator, Option.isSome_some, if_true]
  omega

end Separated

end LoopPlan

namespace Query

variable {q : Query} {p : LoopPlan} {parse : Nat → PlainParse} {L : DefId → Text → Prop}

/-- Where a prefix belongs to a definition, there is a candidate. -/
theorem mem_allEnds (hg : q.grammar.Valid) (hreg : q.grammar.Regular) {item : DefId}
    {cursor stop : Nat} {u v : Text} (hslice : slice? q.text cursor stop = some (u ++ v))
    (hu : q.grammar.Derives item u) : cursor + byteLength u ∈ q.allEnds item cursor stop := by
  have hends := (hg.definition_admits hreg item).prefixEnds u v hu
  rw [← slice_eq_of_slice? hslice] at hends
  exact List.mem_map_of_mem hends

theorem quantifier_ne_possessive (hquantifiers : q.grammar.NonPossessive) (item : DefId) :
    q.quantifier item ≠ .possessive := by
  intro h
  rw [quantifier] at h
  cases hquantifier : q.grammar.quantifier? item with
  | none => simp [hquantifier] at h
  | some _ =>
      rw [hquantifier] at h
      exact hquantifiers (q.grammar.resolve item) (hquantifier.trans (congrArg some h))

/-! ### Enough fuel -/

/-- Something is found with every large enough amount of fuel. -/
def Found {α : Type} (f : Nat → Option α) : Prop :=
  ∃ bound, ∀ fuel, bound ≤ fuel → (f fuel).isSome = true

theorem Found.imp {α β : Type} {f : Nat → Option α} {g : Nat → Option β} (hf : Found f)
    (h : ∀ fuel, (f fuel).isSome = true → (g fuel).isSome = true) : Found g := by
  obtain ⟨bound, hf⟩ := hf
  exact ⟨bound, fun fuel hfuel => h fuel (hf fuel hfuel)⟩

theorem Found.of_both {α β γ : Type} {f : Nat → Option α} {g : Nat → Option β} {h : Nat → Option γ}
    (hf : Found f) (hg : Found g)
    (hboth : ∀ fuel, (f fuel).isSome = true → (g fuel).isSome = true → (h fuel).isSome = true) :
    Found h := by
  obtain ⟨b, hf⟩ := hf
  obtain ⟨c, hg⟩ := hg
  refine ⟨max b c, fun fuel hfuel => ?_⟩
  exact hboth fuel (hf fuel (by omega)) (hg fuel (by omega))

/-- With enough fuel the parts are found on every range whose text belongs to the languages. -/
def PartsFound (q : Query) (parse : Nat → PlainParse) (L : DefId → Text → Prop) : Prop :=
  ∀ d start stop, IsRange q.text start stop → L d (q.slice start stop) →
    Found fun fuel => parse fuel d start stop

theorem PartsFound.of_slice? (h : q.PartsFound parse L) {d : DefId} {start stop : Nat} {w : Text}
    (hslice : slice? q.text start stop = some w) (hw : L d w) :
    Found fun fuel => parse fuel d start stop := by
  refine h d start stop (.of_slice? hslice) ?_
  rw [Query.slice, slice_eq_of_slice? hslice]
  exact hw

/-- Texts that belong to the languages belong to the definitions. -/
def Within (q : Query) (L : DefId → Text → Prop) : Prop :=
  ∀ d w, L d w → q.grammar.Derives d w

/-! ### Sequences and choices -/

section Valid

variable (hg : q.grammar.Valid) (hreg : q.grammar.Regular) (hquantifiers : q.grammar.NonPossessive)
  (hparse : q.PartsFound parse L) (hL : q.Within L)
include hg hreg hquantifiers hparse hL

theorem plainSequence_found {stop : Nat} {follows : Array Filter}
    (hfollows : ∀ k, follows.getD k .everywhere = .everywhere) {items : List DefId}
    {ws : List Text} (hws : List.Forall₂ L items ws) (k : Nat) {cursor : Nat}
    (hslice : slice? q.text cursor stop = some ws.flatten) :
    Found fun fuel => q.plainSequence (parse fuel) stop follows items k cursor := by
  induction hws generalizing k cursor with
  | nil =>
      obtain rfl : stop = cursor := slice?_stop hslice
      exact ⟨0, fun fuel _ => by simp [plainSequence]⟩
  | @cons item w items ws hw _ ih =>
      rw [List.flatten_cons] at hslice
      obtain ⟨hpart, hrest⟩ := slice?_append hslice
      refine (hparse.of_slice? hpart hw).of_both (ih (k + 1) hrest) fun fuel hpart hrest => ?_
      obtain ⟨part, hpart⟩ := Option.isSome_iff_exists.1 hpart
      have hend : cursor + byteLength w ∈ q.ends item cursor stop :=
        Quantifier.mem_order (quantifier_ne_possessive hquantifiers item)
          (mem_allEnds hg hreg hslice (hL item w hw))
      rw [plainSequence, hfollows, filter_everywhere, List.findSome?_isSome_iff]
      refine ⟨_, hend, ?_⟩
      rw [hpart, Option.bind_some, Option.isSome_map]
      exact hrest

end Valid

/-- A choice accepts what one of its alternatives accepts. -/
theorem isSome_plainChoice (hprune : q.prune = false) {parse : PlainParse} {start stop : Nat}
    {a : DefId}
    {alternatives : List DefId} (ha : a ∈ alternatives) (h : (parse a start stop).isSome = true)
    (index : Nat) : (q.plainChoice parse start stop alternatives index).isSome = true := by
  induction alternatives generalizing index with
  | nil => cases ha
  | cons b bs ih =>
      rw [plainChoice, hprune, Bool.false_and, if_neg Bool.false_ne_true, Option.isSome_or,
        Option.isSome_map, Bool.or_eq_true]
      rcases List.mem_cons.1 ha with rfl | ha
      · exact .inl h
      · exact .inr (ih ha (index + 1))

/-! ### Loops -/

/-- With enough fuel a loop is completed at the cursor after every trail of the kind. -/
def Completes (q : Query) (parse : Nat → PlainParse) (p : LoopPlan) (Trail : List Split → Prop)
    (cursor : Nat) : Prop :=
  ∃ bound, ∀ fuel n, bound ≤ fuel → bound ≤ n → ∀ trail, Trail trail →
    (q.plainExtend (parse fuel) p n trail cursor).isSome = true

theorem completes_done {Trail : List Split → Prop} {cursor : Nat}
    (h : ∀ trail, Trail trail → p.isComplete trail cursor = true) :
    q.Completes parse p Trail cursor := by
  refine ⟨1, fun fuel n _ hn trail htrail => ?_⟩
  obtain ⟨n, rfl⟩ : ∃ m, n = m + 1 := ⟨n - 1, by omega⟩
  rw [plainExtend, if_pos (h trail htrail)]
  rfl

section Valid

variable (hg : q.grammar.Valid) (hreg : q.grammar.Regular) (hquantifiers : q.grammar.NonPossessive)
  (hparse : q.PartsFound parse L) (hL : q.Within L)
  (hspan : ∀ fuel d start stop s, parse fuel d start stop = some s → s.span = ⟨start, stop⟩)
  (hitems : p.repetition.quantifier ≠ .possessive)
  (hfollows : ∀ trail, p.follows trail = .everywhere)
include hg hreg hquantifiers hparse hL hspan hitems hfollows

/-- A loop is completed after a trail when it is completed after one more element that is needed or
brings it forward. -/
theorem completes_step {Trail Next : List Split → Prop} {d : DefId} {u v : Text} {cursor : Nat}
    (hslice : slice? q.text cursor p.stop = some (u ++ v)) (hu : L d u)
    (hstep : ∀ trail, Trail trail → p.element trail = d ∧ p.isFull trail = false ∧
      p.isUseful trail cursor (cursor + byteLength u) = true ∧
      ∀ part : Split, part.span = ⟨cursor, cursor + byteLength u⟩ → Next (part :: trail))
    (hrest : q.Completes parse p Next (cursor + byteLength u)) :
    q.Completes parse p Trail cursor := by
  obtain ⟨b, hpart⟩ := hparse.of_slice? (slice?_append hslice).1 hu
  obtain ⟨c, hrest⟩ := hrest
  refine ⟨max b (c + 1), fun fuel n hfuel hn trail htrail => ?_⟩
  obtain ⟨n, rfl⟩ : ∃ m, n = m + 1 := ⟨n - 1, by omega⟩
  obtain ⟨helement, hfull, huseful, hnext⟩ := hstep trail htrail
  obtain ⟨part, hpart⟩ := Option.isSome_iff_exists.1 (hpart fuel (by omega))
  have hend : cursor + byteLength u ∈ q.loopEnds p trail cursor := by
    have hall := mem_allEnds hg hreg hslice (hL d u hu)
    rw [loopEnds, hfollows, filter_everywhere, helement]
    refine List.mem_filter.2 ⟨?_, huseful⟩
    split
    · exact Quantifier.mem_order (quantifier_ne_possessive hquantifiers d) hall
    · exact LoopPlan.mem_itemOrder hitems hall
  rw [plainExtend]
  split
  · rfl
  · rw [hfull, if_neg Bool.false_ne_true, List.findSome?_isSome_iff]
    refine ⟨_, hend, ?_⟩
    rw [helement, show parse fuel d cursor (cursor + byteLength u) = some part from hpart]
    exact hrest fuel n (by omega) (by omega) _ (hnext part (hspan _ _ _ _ _ hpart))

/-- A loop follows a derivation; an empty item that is not needed is left away. -/
theorem loop_completes (hseparator : p.separator = none) {us : List Text}
    (hus : ∀ u ∈ us, L p.item u) {count cursor : Nat}
    (hadmits : p.repetition.admits (count + us.length) = true)
    (hslice : slice? q.text cursor p.stop = some us.flatten) :
    q.Completes parse p (fun trail => trail.length = count) cursor := by
  induction us generalizing count cursor with
  | nil =>
      have hstop : p.stop = cursor := slice?_stop hslice
      refine completes_done fun trail htrail => ?_
      simpa [LoopPlan.isComplete, LoopPlan.endsWithSeparator, LoopPlan.count, hseparator, htrail,
        hstop] using hadmits
  | cons u us ih =>
      obtain ⟨hu, hrest⟩ := List.forall_mem_cons.1 hus
      obtain ⟨hmin, hmax⟩ := Repetition.admits_iff.1 hadmits
      simp only [List.length_cons, List.flatten_cons] at hmin hmax hslice
      by_cases hskip : u = [] ∧ p.repetition.min ≤ count
      · obtain ⟨rfl, henough⟩ := hskip
        refine ih hrest (Repetition.admits_iff.2 ⟨by omega, fun max h => ?_⟩) hslice
        have := hmax max h
        omega
      · have hrest : q.Completes parse p (fun trail => trail.length = count + 1)
            (cursor + byteLength u) :=
          ih hrest (Repetition.admits_iff.2 ⟨by omega, fun max h => by have := hmax max h; omega⟩)
            (slice?_append hslice).2
        refine completes_step hg hreg hquantifiers hparse hL hspan hitems hfollows hslice hu
          (fun trail htrail => ⟨?_, ?_, ?_, fun part _ => ?_⟩) hrest
        · simp only [LoopPlan.element, hseparator]
        · refine LoopPlan.isFull_eq_false fun max h => ?_
          have := hmax max h
          simp only [LoopPlan.count, hseparator, htrail]
          simp
          omega
        · have huseful : u ≠ [] ∨ count < p.repetition.min := by
            by_cases hempty : u = []
            · exact .inr (Nat.not_le.1 fun h => hskip ⟨hempty, h⟩)
            · exact .inl hempty
          simp only [LoopPlan.isUseful, LoopPlan.belowMin, LoopPlan.count, hseparator, htrail]
          simp
          exact huseful.imp byteLength_pos id
        · simp [htrail]

variable {separator : DefId}

/-- After an item, a loop follows a derivation; an empty separator with an empty item that is not
needed is left away. -/
theorem pairs_complete (hseparator : p.separator = some separator) {us vs : List Text}
    (hlength : vs.length = us.length) (hus : ∀ u ∈ us, L p.item u) (hvs : ∀ v ∈ vs, L separator v)
    {count cursor : Nat} (hadmits : p.repetition.admits (count + us.length) = true)
    (hslice : slice? q.text cursor p.stop = some (List.zipWith (· ++ ·) vs us).flatten) :
    q.Completes parse p (fun trail => trail.length + 1 = 2 * count) cursor := by
  induction us generalizing vs count cursor with
  | nil =>
      have hstop : p.stop = cursor := by
        rw [List.zipWith_nil_right] at hslice
        exact slice?_stop hslice
      refine completes_done fun trail htrail => ?_
      rw [LoopPlan.isComplete, LoopPlan.endsWithSeparator_of_odd hseparator htrail,
        LoopPlan.count_of_odd hseparator htrail, hstop]
      simpa using hadmits
  | cons u us ih =>
      obtain ⟨v, vs, rfl⟩ := List.exists_cons_of_length_eq_add_one hlength
      obtain ⟨hu, husRest⟩ := List.forall_mem_cons.1 hus
      obtain ⟨hv, hvsRest⟩ := List.forall_mem_cons.1 hvs
      obtain ⟨hmin, hmax⟩ := Repetition.admits_iff.1 hadmits
      simp only [List.length_cons] at hmin hmax hlength
      rw [List.zipWith_cons_cons, List.flatten_cons, List.append_assoc] at hslice
      by_cases hskip : v = [] ∧ u = [] ∧ p.repetition.min ≤ count
      · obtain ⟨rfl, rfl, henough⟩ := hskip
        refine ih (by omega) husRest hvsRest (Repetition.admits_iff.2 ⟨by omega, fun max h => ?_⟩)
          hslice
        have := hmax max h
        omega
      have hrest := (slice?_append hslice).2
      have hfull : ∀ trail, p.count trail = count → p.isFull trail = false := by
        intro trail hcount
        refine LoopPlan.isFull_eq_false fun max h => ?_
        have := hmax max h
        omega
      -- after the separator: it may be empty only if `v` is
      have hitem : q.Completes parse p (fun trail => trail.length = 2 * count ∧
          (p.endsWithEmptySeparator trail = true → v = [])) (cursor + byteLength v) := by
        have hpairs : q.Completes parse p (fun trail => trail.length + 1 = 2 * (count + 1))
            (cursor + byteLength v + byteLength u) :=
          ih (by omega) husRest hvsRest
            (Repetition.admits_iff.2 ⟨by omega, fun max h => by have := hmax max h; omega⟩)
            (slice?_append hrest).2
        refine completes_step hg hreg hquantifiers hparse hL hspan hitems hfollows hrest hu
          (fun trail h => ?_) hpairs
        obtain ⟨htrail, hempty⟩ := h
        have hcount := LoopPlan.count_of_even hseparator htrail
        have hexpects := LoopPlan.expectsSeparator_of_even hseparator htrail
        refine ⟨?_, hfull trail hcount, ?_, fun part _ => ?_⟩
        · simp only [LoopPlan.element, hseparator, hexpects]
          rfl
        · rw [LoopPlan.isUseful, LoopPlan.belowMin, hcount]
          cases hends : p.endsWithEmptySeparator trail with
          | false => simp [hseparator]
          | true =>
              have hneeded : u ≠ [] ∨ count < p.repetition.min := by
                by_cases hu : u = []
                · exact .inr (Nat.not_le.1 fun h => hskip ⟨hempty hends, hu, h⟩)
                · exact .inl hu
              simp
              exact hneeded.imp byteLength_pos id
        · simp only [List.length_cons]
          omega
      refine completes_step hg hreg hquantifiers hparse hL hspan hitems hfollows hslice hv
        (fun trail htrail => ?_) hitem
      have hcount := LoopPlan.count_of_odd hseparator htrail
      have hexpects := LoopPlan.expectsSeparator_of_odd hseparator htrail
      have hends := LoopPlan.endsWithSeparator_of_odd hseparator htrail
      refine ⟨?_, hfull trail hcount, ?_, fun part hpart => ⟨?_, fun hempty => ?_⟩⟩
      · simp only [LoopPlan.element, hseparator, hexpects]
        rfl
      · rw [LoopPlan.isUseful, LoopPlan.endsWithEmptySeparator, hends, hseparator]
        rfl
      · simpa using htrail
      · rw [LoopPlan.endsWithEmptySeparator, Bool.and_eq_true] at hempty
        by_cases hv : v = []
        · exact hv
        · have := byteLength_pos hv
          simp [Split.isEmpty, hpart] at hempty
          omega

/-- A separated loop follows a derivation. -/
theorem separated_completes (hseparator : p.separator = some separator) {us vs : List Text}
    (hlength : vs.length = us.length - 1) (hus : ∀ u ∈ us, L p.item u)
    (hvs : ∀ v ∈ vs, L separator v) {cursor : Nat}
    (hadmits : p.repetition.admits us.length = true)
    (hslice : slice? q.text cursor p.stop = some (interleave us vs).flatten) :
    q.Completes parse p (fun trail => trail = []) cursor := by
  cases us with
  | nil =>
      obtain rfl := List.length_eq_zero_iff.1 hlength
      have hstop : p.stop = cursor := slice?_stop hslice
      refine completes_done fun trail htrail => ?_
      subst htrail
      simpa [LoopPlan.isComplete, LoopPlan.endsWithSeparator, LoopPlan.count, hstop] using hadmits
  | cons u us =>
      obtain ⟨hu, hus⟩ := List.forall_mem_cons.1 hus
      rw [List.length_cons, Nat.add_sub_cancel] at hlength
      rw [flatten_interleave hlength] at hslice
      have hrest : q.Completes parse p (fun trail => trail.length + 1 = 2 * 1)
          (cursor + byteLength u) :=
        pairs_complete hg hreg hquantifiers hparse hL hspan hitems hfollows hseparator hlength hus
          hvs (by rwa [Nat.add_comm]) (slice?_append hslice).2
      refine completes_step hg hreg hquantifiers hparse hL hspan hitems hfollows hslice hu
        (fun trail htrail => ?_) hrest
      subst htrail
      refine ⟨?_, LoopPlan.isFull_eq_false fun max h => ?_, ?_, fun part _ => rfl⟩
      · simp [LoopPlan.element, hseparator, LoopPlan.expectsSeparator]
      · have := (Repetition.admits_iff.1 hadmits).2 max h
        simp only [List.length_cons] at this
        simp [LoopPlan.count]
        omega
      · simp [LoopPlan.isUseful, hseparator, LoopPlan.endsWithEmptySeparator,
          LoopPlan.endsWithSeparator]

end Valid

/-! ### Definitions -/

theorem Completes.found {Trail : List Split → Prop} (h : q.Completes parse p Trail p.start)
    (htrail : Trail []) : Found fun fuel => q.plainLoop (parse fuel) p fuel := by
  obtain ⟨bound, h⟩ := h
  refine ⟨bound, fun fuel hfuel => ?_⟩
  dsimp only
  rw [plainLoop, Option.isSome_map]
  exact h fuel fuel hfuel hfuel [] htrail

theorem found_leaf {start stop : Nat} {fits : Bool} (h : fits = true) :
    Found fun _ => plainLeaf start stop fits :=
  ⟨0, fun _ _ => by simp [plainLeaf, h]⟩

section Valid

variable (hg : q.grammar.Valid) (hreg : q.grammar.Regular) (hquantifiers : q.grammar.NonPossessive)
  (hprune : q.prune = false) (hparse : q.PartsFound parse L) (hL : q.Within L)
  (hspan : ∀ fuel d start stop s, parse fuel d start stop = some s → s.span = ⟨start, stop⟩)
include hg hreg hquantifiers hprune hparse hL hspan

/-- **What the rule of a definition denotes is found when its parts are.** -/
theorem plainShape_found {d : DefId} {start stop : Nat} {w : Text}
    (hslice : slice? q.text start stop = some w)
    (hw : (q.grammar.shape d).Denotes q.grammar.engine L w) :
    Found fun fuel => q.plainShape (parse fuel) fuel d start stop := by
  have hrange : q.slice start stop = w := slice_eq_of_slice? hslice
  have hquantifier : ∀ quantifier, (q.grammar.shape d).quantifier? = some quantifier →
      quantifier ≠ .possessive := by
    rintro _ h rfl
    exact hquantifiers (q.grammar.resolve d) h
  have hindirect := hg.target?_shape d
  simp only [plainShape]
  cases hshape : q.grammar.shape d with
  | literal text =>
      rw [hshape] at hw
      exact found_leaf (by rw [hrange]; exact beq_iff_eq.2 hw)
  | pattern source =>
      rw [hshape] at hw
      obtain ⟨isMatch, hmatch, hw⟩ := hw
      obtain ⟨-, isMatch', hmatch', hleaf⟩ := hg.pattern _ source hshape
      obtain rfl := Option.some.inj (hmatch.symm.trans hmatch')
      refine found_leaf ?_
      rw [Grammar.leafMatches, hleaf, hrange]
      exact hw
  | empty =>
      rw [hshape] at hw
      obtain rfl : w = [] := hw
      have hstop : stop = start := slice?_stop hslice
      exact found_leaf (by simp [hstop])
  | sequence items =>
      rw [hshape] at hw
      obtain ⟨ws, hws, rfl⟩ := hw
      rw [List.forall₂_map_left_iff] at hws
      have hparts := plainSequence_found hg hreg hquantifiers hparse hL
        (sequenceFollows_unpruned hprune d items.length start stop) hws 0 hslice
      refine hparts.imp fun fuel h => ?_
      dsimp only
      rw [Option.isSome_map]
      exact h
  | choice alternatives =>
      rw [hshape] at hw
      obtain ⟨a, ha, hw⟩ := hw
      exact (hparse.of_slice? hslice hw).imp fun fuel h => isSome_plainChoice hprune ha h 0
  | optional item quantifier =>
      rw [hshape] at hw
      by_cases hempty : start = stop
      · exact ⟨0, fun fuel _ => by simp [hempty]⟩
      · rcases hw with rfl | hw
        · exact absurd (slice?_stop hslice).symm hempty
        · refine (hparse.of_slice? hslice hw).imp fun fuel h => ?_
          dsimp only
          rw [if_neg hempty, Option.isSome_map]
          exact h
  | loop item r =>
      rw [hshape] at hw
      obtain ⟨us, hadmits, hus, rfl⟩ := hw
      have hcompletes := loop_completes (p := q.loopPlan d item none r start stop) hg hreg
        hquantifiers hparse hL hspan (hquantifier _ (by rw [hshape]; rfl))
        (loopFollows_unpruned hprune d item none r start stop) rfl hus
        (by rw [Nat.zero_add]; exact hadmits) hslice
      exact hcompletes.found rfl
  | separated item separator default r =>
      rw [hshape] at hw
      obtain ⟨us, vs, hadmits, hlength, hus, hvs, rfl⟩ := hw
      have hcompletes := separated_completes (p := q.loopPlan d item (some separator) r start stop) hg
        hreg hquantifiers hparse hL hspan (hquantifier _ (by rw [hshape]; rfl))
        (loopFollows_unpruned hprune d item (some separator) r start stop) rfl hlength hus hvs hadmits
        hslice
      exact hcompletes.found rfl
  | «alias» target name => rw [hshape] at hindirect; cases hindirect
  | forward target => rw [hshape] at hindirect; cases hindirect
  | withDefault content target => rw [hshape] at hindirect; cases hindirect

end Valid

/-- **A derivation is found inside of parts that need more steps.** -/
theorem plain_found (hg : q.grammar.Valid) (hreg : q.grammar.Regular)
    (hquantifiers : q.grammar.NonPossessive) (hprune : q.prune = false) (n : Nat)
    {active : List Part}
    (hactive : ∀ part ∈ active,
      ¬ q.grammar.DerivesIn n part.definition (q.slice part.start part.stop)) :
    q.PartsFound (fun fuel => q.plain fuel active)
      fun d w => q.grammar.DerivesIn n (q.grammar.resolve d) w := by
  induction n generalizing active with
  | zero => exact fun d start stop _ hw => absurd hw id
  | succ n ih =>
      intro d start stop hrange hw
      by_cases hless : q.grammar.DerivesIn n (q.grammar.resolve d) (q.slice start stop)
      · exact ih (fun part hpart h => hactive part hpart h.succ) d start stop hrange hless
      · -- the whole needs all of the steps, and each of its parts at least one less
        have hparts : q.PartsFound
            (fun fuel => q.plain fuel (⟨q.grammar.resolve d, start, stop⟩ :: active))
            fun e w => q.grammar.DerivesIn n (q.grammar.resolve e) w := by
          refine ih fun part hpart => ?_
          rcases List.mem_cons.1 hpart with rfl | hpart
          · exact hless
          · exact fun h => hactive part hpart h.succ
        have hwithin : q.Within fun e w => q.grammar.DerivesIn n (q.grammar.resolve e) w :=
          fun e w h => hg.derives_resolve.1 ⟨n, h⟩
        have hdenotes : (q.grammar.shape d).Denotes q.grammar.engine
            (fun e w => q.grammar.DerivesIn n (q.grammar.resolve e) w) (q.slice start stop) :=
          Rule.Denotes.mono (fun e _ w h => hg.derivesIn_resolve h) hw
        obtain ⟨bound, hshape⟩ := plainShape_found hg hreg hquantifiers hprune hparts hwithin
          (fun fuel e start stop s h => plain_span h) hrange.slice? hdenotes
        have hnot : ¬ active.contains ⟨q.grammar.resolve d, start, stop⟩ = true := by
          rw [List.contains_iff_mem]
          exact fun hmem => hactive _ hmem hw
        refine ⟨bound + 1, fun fuel hfuel => ?_⟩
        obtain ⟨fuel, rfl⟩ : ∃ m, fuel = m + 1 := ⟨fuel - 1, by omega⟩
        dsimp only
        rw [plain, if_neg hnot]
        exact hshape fuel (by omega)

/-- A text that a definition denotes is accepted by the search without pruning. -/
theorem run_ok_of_derives (hg : q.grammar.Valid) (hreg : q.grammar.Regular)
    (hquantifiers : q.grammar.NonPossessive) (hprune : q.prune = false)
    (hlimit : q.grammar.limits.recursionLimit = none) {d : DefId} (hd : d < q.grammar.size)
    (h : q.grammar.Derives d q.text) : ∃ s, (q.run d).1 = .ok s := by
  obtain ⟨n, hn⟩ := h
  have hderives := hg.derivesIn_resolve hn
  have hwhole := slice_eq_of_slice? (slice?_whole q.text)
  rw [← hwhole] at hderives
  have hfound := plain_found hg hreg hquantifiers hprune n (List.forall_mem_nil _) d 0 _
    (IsRange.whole q.text) hderives
  obtain ⟨bound, hfound⟩ := hfound
  obtain ⟨s, hs⟩ := Option.isSome_iff_exists.1 (hfound bound (Nat.le_refl bound))
  rcases run_ok_or_rejected hg hlimit hd with hok | hrejected
  · exact hok
  · have hnever := run_describes hg hlimit hd
    rw [hrejected] at hnever
    cases hs.symm.trans (hnever.2 bound)

end Query

/-- **Every text of a definition is accepted**, when the engine keeps its laws, no repetition is
possessive, no pattern has a condition on a position and the nesting is not limited. -/
theorem resolve_complete {draft : Draft} {g : Grammar} (hbuild : draft.build = .ok g)
    (hlawful : g.engine.Lawful) (hquantifiers : g.NonPossessive)
    (hlimit : g.limits.recursionLimit = none) (hfree : g.LookFree) {d : DefId} (hd : d < g.size)
    {text : Text} (h : g.Derives d text) : ∃ split, (resolve g d text).result = .ok split := by
  have hg := Draft.build_valid hbuild
  rw [resolve_ok_iff hg hlimit hd]
  exact Query.run_ok_of_derives (q := ⟨g, text, false⟩) hg ⟨hlawful, hfree⟩ hquantifiers rfl hlimit
    hd h

/-- No row is possessive. -/
theorem rowGrammar_nonPossessive : rowGrammar.NonPossessive := by
  intro d h
  by_cases hd : d < rowGrammar.size
  · match d, hd with
    | 0, _ => cases h
    | 1, _ => cases h
    | 2, _ => cases h
    | 3, _ => cases h
  · rw [Grammar.rule_of_le (Nat.not_lt.1 hd)] at h
    cases h

/-- Two letters are a row. -/
theorem rowGrammar_derives : rowGrammar.Derives 0 ['a', 'a'] := by
  have hletter : rowGrammar.Derives 1 ['a'] :=
    Grammar.derives_iff.2 ⟨_, rfl, by with_unfolding_all rfl⟩
  have hshort : rowGrammar.Derives 3 ['a'] := Grammar.derives_iff.2 ⟨1, by decide, hletter⟩
  have hrow : rowGrammar.Derives 0 ['a'] := Grammar.derives_iff.2 hshort
  have hlong : rowGrammar.Derives 2 ['a', 'a'] :=
    Grammar.derives_iff.2 ⟨[['a'], ['a']], .cons hrow (.cons hletter .nil), rfl⟩
  exact Grammar.derives_iff.2 (Grammar.derives_iff.2 ⟨2, by decide, hlong⟩ : rowGrammar.Derives 3 _)

/-- A row of two letters is accepted. -/
theorem resolve_complete_row :
    rowDraft.build = .ok rowGrammar ∧ rowGrammar.Derives 0 ['a', 'a'] ∧
      ∃ split, (resolve rowGrammar 0 ['a', 'a']).result = .ok split :=
  ⟨rowDraft_build, rowGrammar_derives, resolve_complete rowDraft_build Engine.standard_lawful
    rowGrammar_nonPossessive rfl rowGrammar_lookFree (by decide) rowGrammar_derives⟩

/-- **A definition accepts the texts that it denotes and no others.** -/
theorem resolve_ok_iff_derives {g : Grammar} (hg : g.Valid) (hquantifiers : g.NonPossessive)
    (hlimit : g.limits.recursionLimit = none) (hreg : g.Regular) {d : DefId} (hd : d < g.size)
    (text : Text) : (∃ split, (resolve g d text).result = .ok split) ↔ g.Derives d text := by
  rw [resolve_ok_iff hg hlimit hd]
  constructor
  · rintro ⟨s, hs⟩
    obtain ⟨hspan, hfits⟩ := Query.run_fits (q := ⟨g, text, false⟩) hg hs
    refine hfits.derives hg ?_
    rw [Split.Holds, hspan]
    exact slice?_whole text
  · exact Query.run_ok_of_derives (q := ⟨g, text, false⟩) hg hreg hquantifiers rfl hlimit hd

end Tessera
