/-
**What is accepted matches the patterns.**

The pattern of a definition is only a necessary condition: it is cut off where a definition re-enters
itself, and what is cut off stands for any text.  It covers the language of the definition all the
same, and so do the patterns of what may follow a part.  A split that is found is a derivation down
to its leaves, so every part of it matches the pattern of its own definition, and what follows a part
matches the pattern that is made for the texts that may follow there.

Main definitions:

* `Tessera.LetsThrough` — a pattern matches all of a text, or it does not compile and lets everything
  through;
* `Tessera.Split.parts`, `Tessera.Split.Inside` — the parts of a split, directly and at any depth;
* `Tessera.Grammar.tailAfter?` — what may follow a part.

Main results:

* `Tessera.Split.Fits.inside` — every part of a derivation is a derivation;
* `Tessera.Split.Fits.letsThrough_rest` — **what follows a part matches the pattern made for it**;
* `Tessera.resolve_letsThrough` — **what is accepted matches the patterns, at every depth**.
-/

import Tessera.Proofs.Grammar.Standard
import Tessera.Proofs.Search.Derivations
import Tessera.Proofs.Search.Soundness

set_option autoImplicit false

namespace Tessera

/-! ### Texts that a pattern lets through -/

/-- The pattern matches all of the text; or it does not compile, and its matcher lets every text
through. -/
def LetsThrough (e : Engine) (pattern w : Text) : Prop :=
  e.Accepts pattern w ∨
    (e.whole? pattern = none ∧ ∀ u, (Matcher.ofPattern e pattern).whole u = true)

/-- The matcher of a pattern lets through what the pattern does. -/
theorem whole_ofPattern_iff {e : Engine} {pattern w : Text} :
    (Matcher.ofPattern e pattern).whole w = true ↔ LetsThrough e pattern w := by
  cases hwhole : e.whole? pattern with
  | none =>
      have hall : ∀ u, (Matcher.ofPattern e pattern).whole u = true := by
        intro u
        simp only [Matcher.ofPattern, Matcher.ofScans, hwhole, wholeMatch]
      exact ⟨fun _ => .inr ⟨hwhole, hall⟩, fun _ => hall w⟩
  | some isMatch =>
      have hmatch : (Matcher.ofPattern e pattern).whole w = isMatch w := by
        simp only [Matcher.ofPattern, Matcher.ofScans, hwhole, wholeMatch]
      rw [hmatch, LetsThrough, Engine.Accepts, hwhole]
      simp

namespace Grammar

variable {g : Grammar} {d : DefId}

/-- The pattern of what may follow a position. -/
def tailRegex (g : Grammar) (t : Tail) : Text := (t.template g.rule g.template).toText

/-- What may follow part number `k` of a definition: the items of a sequence from the next one on,
further items of a loop, or what may stand behind an item or a separator. -/
def tailAfter? (g : Grammar) (d : DefId) (k : Nat) : Option Tail :=
  match g.shape d with
  | .sequence _ => some (.sequence (g.resolve d) (k + 1))
  | .loop _ _ => some (.loop (g.resolve d))
  | .separated _ _ _ _ =>
      some (if k % 2 = 0 then .afterItem (g.resolve d) else .afterSeparator (g.resolve d))
  | _ => none

/-- The template of a definition that does not exist is empty. -/
theorem template_of_le (h : g.size ≤ d) : g.template d = .empty := by
  rw [template, Template.ofDefinition, Template.render, rule_of_le h]
  rfl

/-- The matcher of a definition is that of its pattern. -/
theorem Valid.definition_ofPattern (hg : g.Valid) (d : DefId) :
    g.acceptors.definition d = Matcher.ofPattern g.engine (g.regex d) := by
  rw [hg.definition_eq, regex]
  split
  · rfl
  · next hd => rw [template_of_le (Nat.not_lt.1 hd)]

/-- The matcher of what may follow a part is that of its pattern. -/
theorem Valid.tail_ofPattern (hg : g.Valid) {k : Nat} {t : Tail} (ht : g.tailAfter? d k = some t)
    (hk : ∀ items, g.shape d = .sequence items → k < items.length) :
    g.acceptors.tail t = Matcher.ofPattern g.engine (g.tailRegex t) := by
  unfold tailAfter? at ht
  split at ht
  · next items hshape =>
    cases ht
    have hrule : g.rule (g.resolve d) = .sequence items := hshape
    exact hg.tail_eq (lt_size_of_rule (by simp [Tail.place, hrule]))
      (by simp [Tail.place, tailMatchers, hrule, hk items hshape])
  · next item r hshape =>
    cases ht
    have hrule : g.rule (g.resolve d) = .loop item r := hshape
    exact hg.tail_eq (lt_size_of_rule (by simp [Tail.place, hrule]))
      (by simp [Tail.place, tailMatchers, hrule])
  · next item separator default r hshape =>
    have hrule : g.rule (g.resolve d) = .separated item separator default r := hshape
    split at ht <;> cases ht <;>
      exact hg.tail_eq (lt_size_of_rule (by simp [Tail.place, hrule]))
        (by simp [Tail.place, tailMatchers, hrule])
  · cases ht

/-- A text of a definition matches its pattern. -/
theorem Valid.letsThrough_of_derives (hg : g.Valid) (hreg : g.Regular) {w : Text}
    (hw : g.Derives d w) : LetsThrough g.engine (g.regex d) w := by
  rw [← whole_ofPattern_iff, ← hg.definition_ofPattern]
  exact (hg.definition_admits hreg d).whole w hw

end Grammar

/-! ### Items and separators -/

section Rows

variable {L K : Text → Prop} {us vs : List Text}

/-- Separators and items in turn are pairs in a row. -/
theorem repeated_zipWith (hus : ∀ u ∈ us, L u) (hvs : ∀ v ∈ vs, K v) :
    Repeated (InRow [K, L]) 0 none (List.zipWith (· ++ ·) vs us).flatten := by
  refine ⟨_, Nat.zero_le _, by simp, fun x hx => ?_, rfl⟩
  obtain ⟨i, hi, rfl⟩ := List.getElem_of_mem hx
  rw [List.getElem_zipWith]
  exact inRow_pair.2 ⟨_, _, rfl, hvs _ (List.getElem_mem _), hus _ (List.getElem_mem _)⟩

/-- What stands behind a member of items with separators between them: separators and items behind
an item, and an item before those behind a separator. -/
theorem rest_interleave (hlength : vs.length = us.length - 1) (hus : ∀ u ∈ us, L u)
    (hvs : ∀ v ∈ vs, K v) (k : Nat) (hk : k < (interleave us vs).length) :
    if k % 2 = 0 then Repeated (InRow [K, L]) 0 none ((interleave us vs).drop (k + 1)).flatten
    else InRow [L, Repeated (InRow [K, L]) 0 none] ((interleave us vs).drop (k + 1)).flatten := by
  induction us generalizing vs k with
  | nil =>
      obtain rfl := List.length_eq_zero_iff.1 hlength
      simp [interleave] at hk
  | cons u us ih =>
      obtain ⟨-, hus⟩ := List.forall_mem_cons.1 hus
      rw [List.length_cons, Nat.add_sub_cancel] at hlength
      cases us with
      | nil =>
          obtain rfl := List.length_eq_zero_iff.1 hlength
          obtain rfl : k = 0 := by simpa [interleave] using hk
          exact ⟨[], by simp [interleave]⟩
      | cons u' us =>
          obtain ⟨v, vs, rfl⟩ := List.exists_cons_of_length_eq_add_one hlength
          obtain ⟨-, hvsRest⟩ := List.forall_mem_cons.1 hvs
          obtain ⟨hu', husRest⟩ := List.forall_mem_cons.1 hus
          have hlength : vs.length = us.length := by simpa using hlength
          rw [interleave] at hk ⊢
          rcases k with _ | _ | k
          · have hrest := repeated_zipWith hus hvs
            rw [List.zipWith_cons_cons, List.flatten_cons, List.append_assoc,
              ← flatten_interleave hlength] at hrest
            exact hrest
          · rw [if_neg (by decide)]
            exact inRow_pair.2 ⟨u', _, flatten_interleave hlength, hu',
              repeated_zipWith husRest hvsRest⟩
          · have hrest := ih (by simpa using hlength) hus hvsRest k (by simpa using hk)
            rw [Nat.add_assoc, Nat.add_mod_right]
            exact hrest

end Rows

/-! ### Parts of a split -/

namespace Split

/-- The parts that a split of a definition is made of directly, in order, each with its own
definition. -/
def parts (g : Grammar) (d : DefId) (s : Split) : List (Split × DefId) :=
  match g.shape d, s with
  | .sequence items, .sequence _ parts => parts.zip items
  | .choice alternatives, .choice _ index inner => (alternatives[index]?).toList.map (inner, ·)
  | .optional item _, .present _ inner => [(inner, item)]
  | .loop item _, .loop _ items => items.map (·, item)
  | .separated item separator _ _, .separated _ items separators =>
      interleave (items.map (·, item)) (separators.map (·, separator))
  | _, _ => []

/-- A split of a definition occurs inside of a split of `d`, at any depth. -/
inductive Inside (g : Grammar) (s : Split) (d : DefId) : Split → DefId → Prop
  | whole : Inside g s d s d
  | part {t u : Split} {e f : DefId} (ht : Inside g s d t e) (hu : (u, f) ∈ t.parts g e) :
      Inside g s d u f

variable {g : Grammar} {text : Text} {s : Split} {d : DefId}

theorem fitAll_iff {ss : List Split} {ds : List DefId} :
    FitAll g text ss ds ↔ List.Forall₂ (fun s d => s.Fits g text d) ss ds := by
  induction ss generalizing ds with
  | nil => rw [FitAll, List.forall₂_nil_left_iff]
  | cons s ss ih =>
      rw [FitAll, List.forall₂_cons_left_iff]
      simp only [ih]
      tauto

/-- The parts of a derivation are derivations. -/
theorem Fits.parts (h : s.Fits g text d) {u : Split} {e : DefId} (hu : (u, e) ∈ s.parts g d) :
    u.Fits g text e := by
  cases s with
  | leaf span => simp [Split.parts] at hu
  | sequence span parts =>
      rw [Fits] at h
      obtain ⟨-, -, items, hshape, hparts⟩ := h
      simp only [Split.parts, hshape] at hu
      exact (List.forall₂_iff_zip.1 (fitAll_iff.1 hparts)).2 hu
  | choice span index inner =>
      rw [Fits] at h
      obtain ⟨-, -, alternatives, a, hshape, ha, hinner⟩ := h
      simp only [Split.parts, hshape, ha, Option.toList_some, List.map_cons, List.map_nil,
        List.mem_singleton, Prod.mk.injEq] at hu
      obtain ⟨rfl, rfl⟩ := hu
      exact hinner
  | absent span => simp [Split.parts] at hu
  | present span inner =>
      rw [Fits] at h
      obtain ⟨-, -, -, item, quantifier, hshape, hinner⟩ := h
      simp only [Split.parts, hshape, List.mem_singleton, Prod.mk.injEq] at hu
      obtain ⟨rfl, rfl⟩ := hu
      exact hinner
  | loop span items =>
      rw [Fits] at h
      obtain ⟨-, -, item, r, hshape, -, hitems⟩ := h
      simp only [Split.parts, hshape, List.mem_map, Prod.mk.injEq] at hu
      obtain ⟨u', hu, rfl, rfl⟩ := hu
      exact fitEach_iff.1 hitems u' hu
  | separated span items separators =>
      rw [Fits] at h
      obtain ⟨-, -, item, separator, default, r, hshape, -, -, hitems, hseparators⟩ := h
      simp only [Split.parts, hshape] at hu
      rcases mem_of_mem_interleave hu with hitem | hseparator
      · obtain ⟨u', hu', heq⟩ := List.mem_map.1 hitem
        cases heq
        exact fitEach_iff.1 hitems u hu'
      · obtain ⟨u', hu', heq⟩ := List.mem_map.1 hseparator
        cases heq
        exact fitEach_iff.1 hseparators u hu'

/-- Every part of a derivation is a derivation, at any depth. -/
theorem Fits.inside (h : s.Fits g text d) {u : Split} {e : DefId} (hu : s.Inside g d u e) :
    u.Fits g text e := by
  induction hu with
  | whole => exact h
  | part _ hpart ih => exact ih.parts hpart

/-- The text of the parts of a split from number `k` on. -/
def rest (g : Grammar) (text : Text) (s : Split) (d : DefId) (k : Nat) : Text :=
  (((s.parts g d).map fun p => p.1.content text).drop k).flatten

section Valid

variable (hg : g.Valid)
include hg

theorem Fits.derives_content (h : s.Fits g text d) : g.Derives d (s.content text) :=
  h.derives hg h.isRange.slice?

theorem fitEach_derives {ss : List Split} (h : FitEach g text ss d) :
    ∀ w ∈ ss.map (content text), g.Derives d w := by
  intro w hw
  obtain ⟨s, hs, rfl⟩ := List.mem_map.1 hw
  exact (fitEach_iff.1 h s hs).derives_content hg

/-- **What follows a part of a derivation matches the pattern made for it.** -/
theorem Fits.letsThrough_rest (hreg : g.Regular) (h : s.Fits g text d) {k : Nat}
    (hk : k < (s.parts g d).length) {t : Tail} (ht : g.tailAfter? d k = some t) :
    LetsThrough g.engine (g.tailRegex t) (s.rest g text d (k + 1)) := by
  have hlength : ∀ items, g.shape d = .sequence items → k < items.length := by
    intro items hshape
    cases s <;> simp only [Split.parts, hshape, List.length_nil, Nat.not_lt_zero] at hk
    rw [List.length_zip] at hk
    omega
  rw [← whole_ofPattern_iff, ← hg.tail_ofPattern ht hlength]
  unfold Grammar.tailAfter? at ht
  cases s with
  | sequence span parts =>
      rw [Fits] at h
      obtain ⟨-, -, items, hshape, hparts⟩ := h
      have hparts := fitAll_iff.1 hparts
      simp only [hshape, Option.some.injEq] at ht
      subst ht
      have hcontents : ((Split.sequence span parts).parts g d).map (fun p => p.1.content text) =
          parts.map (content text) := by
        have hzip := List.map_fst_zip (Nat.le_of_eq hparts.length_eq)
        simp only [Split.parts, hshape]
        conv_rhs => rw [← hzip, List.map_map]
        rfl
      refine (hg.sequence_tail_admits hreg hshape (hlength items hshape)).whole _ ?_
      have hrow : List.Forall₂ g.Derives items (parts.map (content text)) := by
        rw [List.forall₂_map_right_iff]
        exact hparts.flip.imp fun _ _ h => h.derives_content hg
      rw [rest, hcontents]
      refine ⟨_, ?_, rfl⟩
      rw [List.forall₂_map_left_iff]
      exact List.forall₂_drop (k + 1) hrow
  | loop span items =>
      rw [Fits] at h
      obtain ⟨-, -, item, r, hshape, -, hitems⟩ := h
      simp only [hshape, Option.some.injEq] at ht
      subst ht
      refine (hg.loop_tail_admits hreg hshape).whole _ ?_
      refine ⟨(items.map (content text)).drop (k + 1), Nat.zero_le _, by simp, fun w hw => ?_, ?_⟩
      · exact fitEach_derives hg hitems w (List.mem_of_mem_drop hw)
      · simp only [rest, Split.parts, hshape, List.map_map, Function.comp_def]
  | separated span items separators =>
      rw [Fits] at h
      obtain ⟨-, -, item, separator, default, r, hshape, -, hcount, hitems, hseparators⟩ := h
      simp only [hshape, Option.some.injEq] at ht
      have hcontents : ((Split.separated span items separators).parts g d).map
          (fun p => p.1.content text) =
          interleave (items.map (content text)) (separators.map (content text)) := by
        simp only [Split.parts, hshape, map_interleave, List.map_map, Function.comp_def]
      have hrest := rest_interleave (by simpa using hcount) (fitEach_derives hg hitems)
        (fitEach_derives hg hseparators) k (by rwa [← hcontents, List.length_map])
      rw [← hcontents] at hrest
      split at ht <;> cases ht
      · next heven =>
        rw [if_pos heven] at hrest
        exact (hg.afterItem_tail_admits hreg hshape).whole _ hrest
      · next hodd =>
        rw [if_neg hodd] at hrest
        exact (hg.afterSeparator_tail_admits hreg hshape).whole _ hrest
  | leaf span => simp [Split.parts] at hk
  | choice span index inner =>
      rw [Fits] at h
      obtain ⟨-, -, alternatives, a, hshape, -⟩ := h
      simp only [hshape, reduceCtorEq] at ht
  | absent span => simp [Split.parts] at hk
  | present span inner =>
      rw [Fits] at h
      obtain ⟨-, -, -, item, quantifier, hshape, -⟩ := h
      simp only [hshape, reduceCtorEq] at ht

end Valid

end Split

/-! ### Whole texts -/

/-- **What is accepted matches the patterns, at every depth.**  The engine must keep its laws and no
pattern of the grammar may have a condition on a position; its quantifiers, limits and indirections may
be any.  The text matches the pattern of its definition.  In the split, every part matches the pattern
of its own definition, and what follows it up to the end of its sequence or loop matches the pattern
for the texts that may follow there. -/
theorem resolve_letsThrough {draft : Draft} {g : Grammar} (hbuild : draft.build = .ok g)
    (hlawful : g.engine.Lawful) (hfree : g.LookFree) {d : DefId} {text : Text} {split : Split}
    (h : (resolve g d text).result = .ok split) :
    g.feasible d text = true ∧ LetsThrough g.engine (g.regex d) text ∧
      ∀ part e, split.Inside g d part e →
        LetsThrough g.engine (g.regex e) (part.content text) ∧
          ∀ k t, k < (part.parts g e).length → g.tailAfter? e k = some t →
            LetsThrough g.engine (g.tailRegex t) (part.rest g text e (k + 1)) := by
  have hg := Draft.build_valid hbuild
  obtain ⟨prune, hrun⟩ := resolve_ok h
  obtain ⟨hspan, hfits⟩ := Query.run_fits hg hrun
  have hwhole : LetsThrough g.engine (g.regex d) text := by
    have hderives := hfits.derives hg (w := text)
      (by rw [Split.Holds, hspan]; exact slice?_whole text)
    exact hg.letsThrough_of_derives ⟨hlawful, hfree⟩ hderives
  refine ⟨?_, hwhole, fun part e hinside => ?_⟩
  · rw [Grammar.feasible, hg.definition_ofPattern]
    exact whole_ofPattern_iff.2 hwhole
  · have hpart := hfits.inside hinside
    exact ⟨hg.letsThrough_of_derives ⟨hlawful, hfree⟩ (hpart.derives_content hg),
      fun k t hk ht => hpart.letsThrough_rest hg ⟨hlawful, hfree⟩ hk ht⟩

/-- A row of two letters is a shorter row and a letter, and the letter matches the pattern of what
follows a row. -/
theorem resolve_letsThrough_row :
    (resolve rowGrammar 0 ['a', 'a']).result = .ok rowSplit ∧
      LetsThrough rowGrammar.engine (rowGrammar.regex 0) ['a', 'a'] ∧
      LetsThrough rowGrammar.engine (rowGrammar.tailRegex (.sequence 2 1)) ['a'] := by
  have hresult := resolve_of_run rowGrammar_feasible run_row
  obtain ⟨-, hwhole, hparts⟩ := resolve_letsThrough rowDraft_build Engine.standard_lawful
    rowGrammar_lookFree hresult
  have hlong := hparts _ 2 (.part .whole (List.mem_singleton_self _))
  exact ⟨hresult, hwhole, hlong.2 0 (.sequence 2 1) (by decide) rfl⟩

end Tessera
