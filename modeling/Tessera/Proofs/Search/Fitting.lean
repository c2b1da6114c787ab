/-
**Splits that fit a definition.**

A split fits a definition when it is a derivation: every leaf holds a text of its rule, every inner
node has the parts that its rule asks for, and the parts lie side by side, without a gap and without
an overlap, from one end of the node to the other.

Main definitions:

* `Tessera.Tiles` — parts side by side;
* `Tessera.Split.Fits` — a split is a derivation from a definition.

Main results:

* `Tessera.Split.Fits.isRange` — the range of a split lies between boundaries;
* `Tessera.LoopPlan.interleave_items_separators` — the items and separators of a loop in turn are its
  elements.
-/

import Tessera.Proofs.Grammar.Engines
import Tessera.Proofs.Search.Ranges

set_option autoImplicit false

namespace Tessera

/-! ### Parts side by side -/

/-- The parts lie side by side from `start` to `stop`: each begins where the one before it ends. -/
def Tiles : Nat → Nat → List Split → Prop
  | start, stop, [] => start = stop
  | start, stop, s :: ss => s.span.start = start ∧ Tiles s.span.stop stop ss

namespace LoopPlan

/-- The items and separators of a loop in turn are its elements. -/
theorem interleave_items_separators :
    ∀ elements : List Split, interleave (items elements) (separators elements) = elements
  | [] => rfl
  | [_] => by simp only [items, separators, interleave]
  | _ :: _ :: rest => by
      simp only [items, separators, interleave, interleave_items_separators rest]

theorem length_items : ∀ elements : List Split, (items elements).length = (elements.length + 1) / 2
  | [] => rfl
  | [_] => by simp only [items, List.length_singleton]
  | _ :: _ :: rest => by
      simp only [items, List.length_cons, length_items rest]
      omega

theorem length_separators :
    ∀ elements : List Split, (separators elements).length = elements.length / 2
  | [] => rfl
  | [_] => by simp only [separators, List.length_nil, List.length_singleton]
  | _ :: _ :: rest => by
      simp only [separators, List.length_cons, length_separators rest]
      omega

end LoopPlan

/-! ### Derivations -/

/-- A leaf of a definition may hold the text. -/
def Grammar.LeafFits (g : Grammar) (d : DefId) (w : Text) : Prop :=
  match g.shape d with
  | .literal text => w = text
  | .pattern source => g.engine.Accepts source w
  | .empty => w = []
  | _ => False

namespace Split

mutual

/-- The split is a derivation from the definition over its range of the text. -/
def Fits (g : Grammar) (text : Text) : Split → DefId → Prop
  | .leaf span, d =>
      IsRange text span.start span.stop ∧ g.LeafFits d (slice text span.start span.stop)
  | .sequence span parts, d =>
      IsRange text span.start span.stop ∧ Tiles span.start span.stop parts ∧
        ∃ items, g.shape d = .sequence items ∧ FitAll g text parts items
  | .choice span index inner, d =>
      IsRange text span.start span.stop ∧ inner.span = span ∧
        ∃ alternatives a, g.shape d = .choice alternatives ∧ alternatives[index]? = some a ∧
          Fits g text inner a
  | .absent span, d =>
      IsRange text span.start span.stop ∧ span.start = span.stop ∧
        ∃ item quantifier, g.shape d = .optional item quantifier
  | .present span inner, d =>
      IsRange text span.start span.stop ∧ span.start < span.stop ∧ inner.span = span ∧
        ∃ item quantifier, g.shape d = .optional item quantifier ∧ Fits g text inner item
  | .loop span items, d =>
      IsRange text span.start span.stop ∧ Tiles span.start span.stop items ∧
        ∃ item repetition, g.shape d = .loop item repetition ∧
          repetition.admits items.length = true ∧ FitEach g text items item
  | .separated span items separators, d =>
      IsRange text span.start span.stop ∧
        Tiles span.start span.stop (interleave items separators) ∧
        ∃ item separator default repetition,
          g.shape d = .separated item separator default repetition ∧
          repetition.admits items.length = true ∧ separators.length = items.length - 1 ∧
          FitEach g text items item ∧ FitEach g text separators separator

/-- There is one split for each definition, in order, and each is a derivation. -/
def FitAll (g : Grammar) (text : Text) : List Split → List DefId → Prop
  | [], ds => ds = []
  | s :: ss, ds => ∃ d ds', ds = d :: ds' ∧ Fits g text s d ∧ FitAll g text ss ds'

/-- Every split is a derivation from the one definition. -/
def FitEach (g : Grammar) (text : Text) : List Split → DefId → Prop
  | [], _ => True
  | s :: ss, d => Fits g text s d ∧ FitEach g text ss d

end

variable {g : Grammar} {text : Text}

/-- The range of a split lies between boundaries. -/
theorem Fits.isRange {s : Split} {d : DefId} (h : s.Fits g text d) :
    IsRange text s.span.start s.span.stop := by
  cases s <;> rw [Fits] at h <;> exact h.1

theorem fitEach_iff {ss : List Split} {d : DefId} :
    FitEach g text ss d ↔ ∀ s ∈ ss, s.Fits g text d := by
  induction ss with
  | nil => simp [FitEach]
  | cons s ss ih => simp [FitEach, ih]

end Split

end Tessera
