/-
**Splits and languages.**

A split that fits a definition is a derivation, so the text over its range belongs to the language of
the definition: the parts lie side by side, and their texts make up the text of the whole.

Main definitions:

* `Tessera.Split.Holds`, `Tessera.Split.content` — the text over the range of a split.

Main results:

* `Tessera.Tiles.holds` — the texts of parts side by side make up the text of the range;
* `Tessera.Split.Fits.derives` — **what a fitting split holds belongs to the definition**.
-/

import Tessera.Proofs.Grammar.Language
import Tessera.Proofs.Search.Fitting

set_option autoImplicit false

namespace Tessera

variable {g : Grammar} {text : Text}

/-! ### Texts of parts -/

/-- The text over the range of the split. -/
def Split.Holds (text : Text) (s : Split) (w : Text) : Prop :=
  slice? text s.span.start s.span.stop = some w

/-- The texts of parts side by side make up the text of the range. -/
theorem Tiles.holds {start stop : Nat} {ss : List Split} (h : Tiles start stop ss)
    (hstart : IsBoundary text start)
    (hss : ∀ s ∈ ss, IsRange text s.span.start s.span.stop) :
    ∃ ws, List.Forall₂ (Split.Holds text) ss ws ∧ slice? text start stop = some ws.flatten := by
  induction ss generalizing start with
  | nil =>
      obtain rfl : start = stop := h
      exact ⟨[], .nil, slice?_self hstart⟩
  | cons s ss ih =>
      obtain ⟨rfl, hrest⟩ := h
      obtain ⟨hs, hss⟩ := List.forall_mem_cons.1 hss
      obtain ⟨ws, hws, hslice⟩ := ih hrest hs.right hss
      exact ⟨_ :: ws, .cons hs.slice? hws, slice?_join hs.slice? hslice⟩

/-- The text over the range of the split. -/
def Split.content (text : Text) (s : Split) : Text := slice text s.span.start s.span.stop

/-- The texts of parts side by side make up the text of the range. -/
theorem Tiles.flatten {start stop : Nat} {ss : List Split} (h : Tiles start stop ss)
    (hstart : IsBoundary text start)
    (hss : ∀ s ∈ ss, IsRange text s.span.start s.span.stop) :
    (ss.map (Split.content text)).flatten = slice text start stop := by
  obtain ⟨ws, hws, hslice⟩ := h.holds hstart hss
  have hmap : ss.map (Split.content text) = ws := by
    clear h hslice
    induction hws with
    | nil => rfl
    | cons hs _ ih =>
        obtain ⟨-, hss⟩ := List.forall_mem_cons.1 hss
        rw [List.map_cons, ih hss, Split.content, slice_eq_of_slice? hs]
  rw [hmap, slice_eq_of_slice? hslice]

/-- What members of two lists in turn correspond to are members of two lists in turn. -/
theorem forall₂_interleave {α β : Type} {R : α → β → Prop} {xs ys : List α} {zs : List β}
    (h : List.Forall₂ R (interleave xs ys) zs) :
    ∃ us vs, zs = interleave us vs ∧ List.Forall₂ R xs us ∧ List.Forall₂ R ys vs := by
  induction xs generalizing ys zs with
  | nil => exact ⟨[], zs, by simp [interleave], .nil, by simpa [interleave] using h⟩
  | cons x xs ih =>
      cases ys with
      | nil =>
          refine ⟨zs, [], ?_, by simpa [interleave] using h, .nil⟩
          cases zs <;> simp [interleave]
      | cons y ys =>
          rw [interleave] at h
          cases h with
          | cons hx h =>
              cases h with
              | cons hy h =>
                  obtain ⟨us, vs, rfl, hus, hvs⟩ := ih h
                  exact ⟨_ :: us, _ :: vs, rfl, .cons hx hus, .cons hy hvs⟩

/-! ### Derivations -/

namespace Split

/-- What a leaf holds belongs to its rule. -/
theorem leaf_denotes (hg : g.Valid) {d : DefId} {w : Text} (h : g.LeafFits d w) :
    g.Derives d w := by
  rw [hg.derives_iff_shape]
  unfold Grammar.LeafFits at h
  split at h
  · next hshape =>
    rw [hshape]
    exact h
  · next hshape =>
    rw [hshape]
    exact h
  · next hshape =>
    rw [hshape]
    exact h
  · exact absurd h id

theorem fitAll_isRange {ss : List Split} {ds : List DefId} (h : FitAll g text ss ds) :
    ∀ s ∈ ss, IsRange text s.span.start s.span.stop := by
  induction ss generalizing ds with
  | nil => simp
  | cons s ss ih =>
      rw [FitAll] at h
      obtain ⟨d, ds', rfl, hs, hss⟩ := h
      exact List.forall_mem_cons.2 ⟨hs.isRange, ih hss⟩

mutual

/-- **What a fitting split holds belongs to the definition.** -/
theorem Fits.derives (hg : g.Valid) :
    ∀ {s : Split} {d : DefId} {w : Text}, s.Fits g text d → s.Holds text w → g.Derives d w
  | .leaf span, d, w, h, hw => by
      rw [Fits] at h
      have : slice text span.start span.stop = w := slice_eq_of_slice? hw
      exact this ▸ leaf_denotes hg h.2
  | .sequence span parts, d, w, h, hw => by
      rw [Fits] at h
      obtain ⟨hrange, htiles, items, hshape, hparts⟩ := h
      obtain ⟨ws, hws, hslice⟩ := htiles.holds hrange.left (fitAll_isRange hparts)
      obtain rfl := slice?_inj hw hslice
      rw [hg.derives_iff_shape, hshape]
      refine ⟨ws, ?_, rfl⟩
      rw [List.forall₂_map_left_iff]
      exact FitAll.derives hg hparts hws
  | .choice span index inner, d, w, h, hw => by
      rw [Fits] at h
      obtain ⟨hrange, hspan, alternatives, a, hshape, ha, hinner⟩ := h
      rw [hg.derives_iff_shape, hshape]
      have hw : inner.Holds text w := by rw [Holds, hspan]; exact hw
      exact ⟨a, List.mem_of_getElem? ha, Fits.derives hg hinner hw⟩
  | .absent span, d, w, h, hw => by
      rw [Fits] at h
      obtain ⟨hrange, hempty, item, quantifier, hshape⟩ := h
      rw [hg.derives_iff_shape, hshape]
      have hw : slice? text span.start span.stop = some w := hw
      rw [hempty] at hw
      exact .inl (slice?_self_eq hw)
  | .present span inner, d, w, h, hw => by
      rw [Fits] at h
      obtain ⟨hrange, hlt, hspan, item, quantifier, hshape, hinner⟩ := h
      rw [hg.derives_iff_shape, hshape]
      have hw : inner.Holds text w := by rw [Holds, hspan]; exact hw
      exact .inr (Fits.derives hg hinner hw)
  | .loop span items, d, w, h, hw => by
      rw [Fits] at h
      obtain ⟨hrange, htiles, item, r, hshape, hcount, hitems⟩ := h
      obtain ⟨ws, hws, hslice⟩ :=
        htiles.holds hrange.left fun s hs => (fitEach_iff.1 hitems s hs).isRange
      obtain rfl := slice?_inj hw hslice
      rw [hg.derives_iff_shape, hshape]
      exact ⟨ws, hws.length_eq ▸ hcount, FitEach.derives hg hitems hws, rfl⟩
  | .separated span items separators, d, w, h, hw => by
      rw [Fits] at h
      obtain ⟨hrange, htiles, item, separator, default, r, hshape, hcount, hlength, hitems,
        hseparators⟩ := h
      have hranges : ∀ s ∈ interleave items separators, IsRange text s.span.start s.span.stop :=
        fun s hs => (mem_of_mem_interleave hs).elim (fun hs => (fitEach_iff.1 hitems s hs).isRange)
          fun hs => (fitEach_iff.1 hseparators s hs).isRange
      obtain ⟨ws, hws, hslice⟩ := htiles.holds hrange.left hranges
      obtain rfl := slice?_inj hw hslice
      obtain ⟨us, vs, rfl, hus, hvs⟩ := forall₂_interleave hws
      rw [hg.derives_iff_shape, hshape]
      exact ⟨us, vs, hus.length_eq ▸ hcount, by rw [← hus.length_eq, ← hvs.length_eq, hlength],
        FitEach.derives hg hitems hus, FitEach.derives hg hseparators hvs, rfl⟩

theorem FitAll.derives (hg : g.Valid) :
    ∀ {ss : List Split} {ds : List DefId} {ws : List Text}, FitAll g text ss ds →
      List.Forall₂ (Holds text) ss ws → List.Forall₂ g.Derives ds ws
  | [], ds, ws, h, hws => by
      rw [FitAll] at h
      cases hws
      exact h ▸ .nil
  | s :: ss, ds, ws, h, hws => by
      rw [FitAll] at h
      obtain ⟨d, ds', rfl, hs, hss⟩ := h
      cases hws with
      | cons hw hws =>
          exact .cons (Fits.derives hg hs hw) (FitAll.derives hg hss hws)

theorem FitEach.derives (hg : g.Valid) :
    ∀ {ss : List Split} {d : DefId} {ws : List Text}, FitEach g text ss d →
      List.Forall₂ (Holds text) ss ws → ∀ w ∈ ws, g.Derives d w
  | [], d, ws, h, hws => by
      cases hws
      simp
  | s :: ss, d, ws, h, hws => by
      rw [FitEach] at h
      cases hws with
      | cons hw hws =>
          exact List.forall_mem_cons.2
            ⟨Fits.derives hg h.1 hw, FitEach.derives hg h.2 hws⟩

end

/-- The texts of parts that fit, one for each definition, stand in a row. -/
theorem FitAll.inRow (hg : g.Valid) {ss : List Split} {ds : List DefId}
    {start stop : Nat} (h : FitAll g text ss ds) (htiles : Tiles start stop ss)
    (hstart : IsBoundary text start) : InRow (ds.map g.Derives) (slice text start stop) := by
  obtain ⟨ws, hws, hslice⟩ := htiles.holds hstart (fitAll_isRange h)
  refine ⟨ws, ?_, slice_eq_of_slice? hslice⟩
  rw [List.forall₂_map_left_iff]
  exact FitAll.derives hg h hws

end Split

end Tessera
