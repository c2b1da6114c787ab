/-
**The preferred split of a sequence and of a choice.**

Many splits of a text may fit a sequence.  They differ in where the parts end, and the search takes
the one that comes first when the ends are compared from left to right: at the first place where two
splits differ, the one with the larger end is preferred, or with the smaller one when the item there
is lazy.  A possessive item has one end alone, that of the largest prefix of the rest that matches its
pattern.  A choice takes the first alternative that accepts the whole range.

The candidates of an item are in this order, so the first success of the search is the first of all
splits.  What is accepted is always a candidate, and what follows a candidate is found or not whatever
the part before it looks like.  As long as nothing is refused, every part of a split is found on its own, so
this holds at any depth.

Main definitions:

* `Tessera.EndsBefore`, `Tessera.IsFirst` — rows of ends, compared from left to right;
* `Tessera.Grammar.MayEnd` — an item may end at an offset;
* `Tessera.Grammar.Tiling` — ends of the items of a sequence that tile a range;
* `Tessera.Grammar.Preferred` — a split is the preferred one.

Main results:

* `Tessera.findSome?_first` — the first candidate that brings something comes before all others that
  do;
* `Tessera.Query.plainSequence_first` — the parts of a sequence are the first that tile the range;
* `Tessera.resolve_preferred` — **the split of a text is the preferred one, at every depth**.
-/

import Mathlib.Order.Bounds.Basic
import Tessera.Proofs.Search.Finding

set_option autoImplicit false

namespace Tessera

/-! ### Rows of ends -/

/-- The first row of ends comes before the second one: at the first place where they differ it has
the end that is preferred there.  Element number `k` begins at the given offset, and which of two ends
is preferred depends on its number and on where it begins. -/
inductive EndsBefore (prefers : Nat → Nat → Nat → Nat → Prop) : Nat → Nat → List Nat → List Nat → Prop
  | here {k cursor e f : Nat} {es fs : List Nat} (h : prefers k cursor e f) :
      EndsBefore prefers k cursor (e :: es) (f :: fs)
  | next {k cursor e : Nat} {es fs : List Nat} (h : EndsBefore prefers (k + 1) e es fs) :
      EndsBefore prefers k cursor (e :: es) (e :: fs)

/-- One of the rows, which comes before all others. -/
structure IsFirst (rows : List Nat → Prop) (before : List Nat → List Nat → Prop)
    (ends : List Nat) : Prop where
  mem : rows ends
  before : ∀ other, rows other → other = ends ∨ before ends other

/-- **The first candidate that brings something comes before all others that do.** -/
theorem findSome?_first {α β : Type} {R : α → α → Prop} {as : List α} (hR : as.Pairwise R)
    (f : α → Option β) {b : α} (hb : b ∈ as) (hs : (f b).isSome) :
    ∃ a ∈ as, ∃ x, as.findSome? f = some x ∧ f a = some x ∧ (b = a ∨ R a b) := by
  obtain ⟨x, h⟩ := Option.isSome_iff_exists.1 (List.findSome?_isSome_iff.2 ⟨b, hb, hs⟩)
  obtain ⟨before, a, after, rfl, hx, hnone⟩ := List.findSome?_eq_some_iff.1 h
  refine ⟨a, List.mem_append_right before List.mem_cons_self, x, h, hx, ?_⟩
  have hafter := (List.pairwise_cons.1 (List.pairwise_append.1 hR).2.1).1
  rcases List.mem_append.1 hb with hb | hb
  · simp [hnone b hb] at hs
  · exact (List.mem_cons.1 hb).imp id (hafter b)

/-- Which of two ends of an item is preferred: the larger one, or the smaller one of a lazy item. -/
def Quantifier.Prefers : Quantifier → Nat → Nat → Prop
  | .lazy, e, f => e < f
  | _, e, f => f < e

theorem Quantifier.order_pairwise {quantifier : Quantifier} {ends : List Nat}
    (h : ends.Pairwise (· < ·)) : (quantifier.order ends).Pairwise quantifier.Prefers := by
  cases quantifier with
  | greedy => exact List.pairwise_reverse.2 h
  | lazy => exact h
  | possessive =>
      rw [order]
      cases ends.getLast? <;> simp

/-- A possessive quantifier keeps the largest end alone. -/
theorem Quantifier.mem_order_iff {quantifier : Quantifier} {ends : List Nat}
    (h : ends.Pairwise (· < ·)) {e : Nat} : e ∈ quantifier.order ends ↔
      e ∈ ends ∧ (quantifier = .possessive → IsGreatest {f | f ∈ ends} e) := by
  cases quantifier with
  | greedy => simp [order]
  | lazy => simp [order]
  | possessive =>
      simp only [order, Option.mem_toList, forall_const]
      constructor
      · intro hlast
        have hmem := List.mem_of_getLast? hlast
        refine ⟨hmem, hmem, fun f hf => ?_⟩
        obtain ⟨init, rfl⟩ := List.getLast?_eq_some_iff.1 hlast
        rcases List.mem_append.1 hf with hf | hf
        · exact Nat.le_of_lt ((List.pairwise_append.1 h).2.2 f hf e (List.mem_singleton_self e))
        · exact Nat.le_of_eq (List.mem_singleton.1 hf)
      · rintro ⟨hmem, -, hgreatest⟩
        have hne : ends ≠ [] := List.ne_nil_of_mem hmem
        have hlast := List.getLast?_eq_some_getLast hne
        obtain ⟨init, hends⟩ := List.getLast?_eq_some_iff.1 hlast
        have hle : ends.getLast hne ≤ e := hgreatest (List.getLast_mem hne)
        rw [hlast]
        rw [hends] at hmem h
        rcases List.mem_append.1 hmem with hinit | he
        · have := (List.pairwise_append.1 h).2.2 e hinit _ (List.mem_singleton_self _)
          omega
        · rw [List.mem_singleton.1 he]

/-! ### Ends of items -/

namespace Grammar

/-- An item that begins at `cursor` may end at `e`, in a range that ends at `stop`: it accepts the text
in between, and when it is possessive no larger prefix of the rest matches its pattern. -/
structure MayEnd (g : Grammar) (text : Text) (quantifier : Quantifier) (item : DefId)
    (cursor stop e : Nat) : Prop where
  range : IsRange text cursor e
  accepts : g.Accepts item (slice text cursor e)
  greatest : quantifier = .possessive →
    IsGreatest {f | f ∈ (g.query text).allEnds item cursor stop} e

/-- The quantifier of an item of a sequence: its own if it is optional or a loop. -/
def itemQuantifier (g : Grammar) (item : DefId) : Quantifier := (g.quantifier? item).getD .greedy

/-- The items tile the range from `cursor` to `stop`: each begins where the one before it ends, and the
ends are given in order. -/
def Tiling (g : Grammar) (text : Text) (stop : Nat) : List DefId → Nat → List Nat → Prop
  | [], cursor, [] => cursor = stop
  | item :: items, cursor, e :: ends =>
      g.MayEnd text (g.itemQuantifier item) item cursor stop e ∧ Tiling g text stop items e ends
  | _, _, _ => False

/-- Which of two ends of item number `k` of a sequence is preferred. -/
def ItemPrefers (g : Grammar) (items : List DefId) (k _ e f : Nat) : Prop :=
  ∃ item, items[k]? = some item ∧ (g.itemQuantifier item).Prefers e f

variable {g : Grammar} {text : Text}

theorem Tiling.isRange {stop : Nat} {items : List DefId} {cursor : Nat} {ends : List Nat}
    (h : g.Tiling text stop items cursor ends) (hcursor : IsBoundary text cursor) :
    IsRange text cursor stop := by
  induction items generalizing cursor ends with
  | nil => cases ends with
    | nil => obtain rfl : cursor = stop := h; exact ⟨Nat.le_refl _, hcursor, hcursor⟩
    | cons e ends => exact absurd h id
  | cons item items ih => cases ends with
    | nil => exact absurd h id
    | cons e ends =>
        obtain ⟨hitem, hrest⟩ := h
        have hright := ih hrest hitem.range.right
        exact ⟨hitem.range.le.trans hright.le, hcursor, hright.right⟩

section Valid

variable (hg : g.Valid) (hreg : g.Regular) {item : DefId} {quantifier : Quantifier}
  {cursor stop e fuel : Nat}
include hg hreg

/-- An end that brings a part is a candidate. -/
theorem mem_allEnds_of_free (hleft : IsRange text cursor e) (hright : IsRange text e stop)
    (h : ((g.query text).free fuel item cursor e).isSome) :
    e ∈ (g.query text).allEnds item cursor stop := by
  obtain ⟨part, hpart⟩ := Option.isSome_iff_exists.1 h
  have hsame : g.Alike g := ⟨rfl, rfl, rfl, rfl⟩
  exact hsame.mem_allEnds hg hreg (Query.free_fits (q := g.query text) hg fuel) hg hleft hright
    hpart

variable (hlimit : g.limits.recursionLimit = none) (hitem : item < g.size)
include hlimit hitem

omit hreg in
/-- A part that may end somewhere is found with enough fuel. -/
theorem MayEnd.found (h : g.MayEnd text quantifier item cursor stop e) :
    ∃ bound, ∀ fuel, bound ≤ fuel → ((g.query text).free fuel item cursor e).isSome := by
  obtain ⟨bound, hbound⟩ := (accepts_slice hg hlimit hitem h.range).1 h.accepts
  obtain ⟨part, hpart⟩ := Option.isSome_iff_exists.1 hbound
  refine ⟨bound, fun fuel hfuel => ?_⟩
  obtain ⟨part', hpart', -⟩ := Query.free_mono hfuel rfl hpart
  simp [hpart']

/-- Where an item may end, there is a candidate. -/
theorem MayEnd.mem_allEnds (h : g.MayEnd text quantifier item cursor stop e)
    (hright : IsRange text e stop) : e ∈ (g.query text).allEnds item cursor stop := by
  obtain ⟨fuel, hfuel⟩ := h.found hg hlimit hitem
  exact mem_allEnds_of_free hg hreg h.range hright (hfuel fuel (Nat.le_refl fuel))

omit hreg in
/-- A candidate that brings a part is an end of the item. -/
theorem mayEnd_of_free (hrange : IsRange text cursor stop)
    (hmem : e ∈ (g.query text).allEnds item cursor stop)
    (hgreatest : quantifier = .possessive →
      IsGreatest {f | f ∈ (g.query text).allEnds item cursor stop} e)
    (h : ((g.query text).free fuel item cursor e).isSome) :
    g.MayEnd text quantifier item cursor stop e := by
  obtain ⟨hleft, -⟩ := Query.isRange_of_mem_allEnds (q := g.query text) hg hrange hmem
  exact ⟨hleft, (accepts_slice hg hlimit hitem hleft).2 ⟨fuel, h⟩, hgreatest⟩

end Valid

end Grammar

/-! ### Sequences -/

/-- The ends of parts. -/
def stops (parts : List Split) : List Nat := parts.map fun s => s.span.stop

theorem stops_cons {part : Split} {cursor e : Nat} (rest : List Split)
    (h : part.span = ⟨cursor, e⟩) : stops (part :: rest) = e :: stops rest := by
  rw [stops, List.map_cons, h]
  rfl

namespace Query

open Grammar

variable {g : Grammar} {text : Text} (hg : g.Valid) (hreg : g.Regular)
  (hlimit : g.limits.recursionLimit = none) {all : List DefId}
  (hitems : ∀ item ∈ all, item < g.size) {stop : Nat} {follows : Array Filter}
  (hfollows : ∀ k, follows.getD k .everywhere = .everywhere)
include hg hlimit hitems hfollows

/-- The parts that a sequence finds tile the range. -/
theorem tiling_of_plainSequence {fuel : Nat} {items : List DefId} {k cursor : Nat}
    (hdrop : all.drop k = items) (hrange : IsRange text cursor stop) {parts : List Split}
    (h : (g.query text).plainSequence ((g.query text).free fuel) stop follows items k cursor =
      some parts) : g.Tiling text stop items cursor (stops parts) := by
  induction items generalizing k cursor parts with
  | nil =>
      rw [plainSequence, Option.ite_none_right_eq_some] at h
      obtain rfl := Option.some.inj h.2
      exact h.1
  | cons item items ih =>
      have hnext : all.drop (k + 1) = items := by rw [← List.drop_drop, hdrop]; rfl
      have hitem : item < g.size :=
        hitems item (List.mem_of_mem_drop (by rw [hdrop]; exact List.mem_cons_self))
      rw [plainSequence, hfollows, filter_everywhere] at h
      obtain ⟨e, he, h⟩ := List.exists_of_findSome?_eq_some h
      obtain ⟨part, hpart, h⟩ := Option.bind_eq_some_iff.1 h
      obtain ⟨rest, hrest, rfl⟩ := Option.map_eq_some_iff.1 h
      obtain ⟨-, hright⟩ :=
        isRange_of_mem_allEnds (q := g.query text) hg hrange (mem_allEnds_of_ends he)
      rw [stops_cons rest (free_span hpart)]
      obtain ⟨hmem, hgreatest⟩ :=
        (Quantifier.mem_order_iff (Query.allEnds_ascending hg item cursor stop).pairwise).1 he
      exact ⟨mayEnd_of_free hg hlimit hitem hrange hmem hgreatest (Option.isSome_of_eq_some hpart),
        ih hnext hright hrest⟩

include hreg

/-- **The parts of a sequence are the first that tile the range.** -/
theorem plainSequence_first {items : List DefId} {k cursor : Nat} (hdrop : all.drop k = items)
    (hcursor : IsBoundary text cursor) {ends : List Nat}
    (hends : g.Tiling text stop items cursor ends) :
    ∃ bound, ∀ fuel, bound ≤ fuel → ∃ parts,
      (g.query text).plainSequence ((g.query text).free fuel) stop follows items k cursor =
        some parts ∧
      (ends = stops parts ∨ EndsBefore (g.ItemPrefers all) k cursor (stops parts) ends) := by
  induction items generalizing k cursor ends with
  | nil =>
      match ends, hends with
      | [], hends => exact ⟨0, fun fuel _ => ⟨[], if_pos hends, .inl rfl⟩⟩
  | cons item items ih =>
      match ends, hends with
      | f :: ends, ⟨hf, hends⟩ =>
        have hnext : all.drop (k + 1) = items := by rw [← List.drop_drop, hdrop]; rfl
        have hat : all[k]? = some item := by
          rw [← List.head?_drop, hdrop]; rfl
        have hitem : item < g.size := hitems item (List.mem_of_getElem? hat)
        have hright := hends.isRange hf.range.right
        obtain ⟨b, hb⟩ := hf.found hg hlimit hitem
        obtain ⟨c, hc⟩ := ih hnext hf.range.right hends
        refine ⟨max b c, fun fuel hfuel => ?_⟩
        obtain ⟨part, hpart⟩ := Option.isSome_iff_exists.1 (hb fuel (by omega))
        obtain ⟨rest, hrest, hfirst⟩ := hc fuel (by omega)
        -- the candidate `f` brings something, so the first that does comes no later
        have hascending := (Query.allEnds_ascending (q := g.query text) hg item cursor stop).pairwise
        have hmem := (Quantifier.mem_order_iff hascending).2
          ⟨hf.mem_allEnds hg hreg hlimit hitem hright, hf.greatest⟩
        have hsome : (((g.query text).free fuel item cursor f).bind fun part =>
            ((g.query text).plainSequence ((g.query text).free fuel) stop follows items (k + 1)
              f).map (part :: ·)).isSome := by
          rw [hpart, Option.bind_some, hrest]
          rfl
        obtain ⟨e, -, parts, hparts, he, hbefore⟩ := findSome?_first
          (Quantifier.order_pairwise hascending)
          (fun e => ((g.query text).free fuel item cursor e).bind fun part =>
            ((g.query text).plainSequence ((g.query text).free fuel) stop follows items (k + 1)
              e).map (part :: ·)) hmem hsome
        refine ⟨parts, ?_, ?_⟩
        · rw [plainSequence, hfollows, filter_everywhere]
          exact hparts
        obtain ⟨part', hpart', he⟩ := Option.bind_eq_some_iff.1 he
        obtain ⟨rest', hrest', rfl⟩ := Option.map_eq_some_iff.1 he
        rw [stops_cons rest' (free_span hpart')]
        rcases hbefore with rfl | hprefers
        · obtain rfl := Option.some.inj (hrest.symm.trans hrest')
          rcases hfirst with rfl | hfirst
          · exact .inl rfl
          · exact .inr (.next hfirst)
        · exact .inr (.here ⟨item, hat, hprefers⟩)

end Query

/-! ### Preferred splits -/

namespace Grammar

/-- The split of a sequence is the first whose parts tile the range, and that of a choice has the first
alternative that accepts the range. -/
def Preferred (g : Grammar) (text : Text) (d : DefId) (s : Split) : Prop :=
  match g.shape d with
  | .sequence items => ∃ span parts, s = .sequence span parts ∧
      IsFirst (g.Tiling text span.stop items span.start)
        (EndsBefore (g.ItemPrefers items) 0 span.start) (stops parts)
  | .choice alternatives => ∃ span index inner, s = .choice span index inner ∧
      IsLeast {i | ∃ a, alternatives[i]? = some a ∧
        g.Accepts a (slice text span.start span.stop)} index
  | _ => True

variable {g : Grammar} (hg : g.Valid) (hreg : g.Regular)
  (hlimit : g.limits.recursionLimit = none) {text : Text} {d : DefId}
include hg hreg hlimit

/-- What the free search finds is preferred. -/
theorem Finds.preferred {s : Split} (h : g.Finds text d s) : g.Preferred text d s := by
  obtain ⟨bound, hbound⟩ := h.shape
  have hlt : ∀ item ∈ (g.shape d).references, item < g.size := fun _ => hg.references_shape
  rw [Preferred]
  split
  · next items hshape =>
    rw [hshape] at hlt
    have hfollows := Query.sequenceFollows_unpruned (q := g.query text) rfl d items.length
      s.span.start s.span.stop
    have hparts : ∀ fuel, bound ≤ fuel → ∃ parts,
        (g.query text).plainSequence ((g.query text).free fuel) s.span.stop
          ((g.query text).sequenceFollows d items.length s.span.start s.span.stop) items 0
          s.span.start = some parts ∧ Split.sequence s.span parts = s := by
      intro fuel hfuel
      have hfound := hbound fuel hfuel
      rw [Query.plainShape, hshape] at hfound
      exact Option.map_eq_some_iff.1 hfound
    obtain ⟨parts, hfirst, hs⟩ := hparts bound (Nat.le_refl _)
    refine ⟨s.span, parts, hs.symm,
      Query.tiling_of_plainSequence hg hlimit hlt hfollows List.drop_zero h.range hfirst,
      fun ends hends => ?_⟩
    obtain ⟨bound', hbound'⟩ := Query.plainSequence_first hg hreg hlimit hlt hfollows
      List.drop_zero h.range.left hends
    -- the parts are the same with enough fuel for the other ends
    obtain ⟨parts', hsame, hs'⟩ := hparts (max bound bound') (Nat.le_max_left _ _)
    obtain ⟨parts'', hother, hbefore⟩ := hbound' (max bound bound') (Nat.le_max_right _ _)
    obtain rfl := Option.some.inj (hsame.symm.trans hother)
    obtain ⟨-, rfl⟩ := Split.sequence.inj (hs.trans hs'.symm)
    exact hbefore
  · next alternatives hshape =>
    rw [hshape] at hlt
    have hchoice : ∀ fuel, bound ≤ fuel → ∃ i a inner, s = .choice s.span i inner ∧
        alternatives[i]? = some a ∧
        (g.query text).free fuel a s.span.start s.span.stop = some inner ∧
        ∀ j < i, ∀ b, alternatives[j]? = some b →
          (g.query text).free fuel b s.span.start s.span.stop = none := by
      intro fuel hfuel
      have hfound := hbound fuel hfuel
      rw [Query.plainShape, hshape] at hfound
      obtain ⟨i, a, inner, hs, hrest⟩ := Query.plainChoice_least rfl hfound
      exact ⟨i, a, inner, by rw [hs, Nat.zero_add]; rfl, hrest⟩
    obtain ⟨i, a, inner, hs, ha, hinner, -⟩ := hchoice bound (Nat.le_refl _)
    have haccepts : g.Accepts a (slice text s.span.start s.span.stop) :=
      (accepts_slice hg hlimit (hlt a (List.mem_of_getElem? ha)) h.range).2
        ⟨bound, Option.isSome_of_eq_some hinner⟩
    refine ⟨s.span, i, inner, hs, ⟨a, ha, haccepts⟩, ?_⟩
    rintro j ⟨b, hb, hj⟩
    obtain ⟨fuel, hfuel⟩ :=
      (accepts_slice hg hlimit (hlt b (List.mem_of_getElem? hb)) h.range).1 hj
    obtain ⟨part, hpart⟩ := Option.isSome_iff_exists.1 hfuel
    -- with enough fuel for alternative `j` the choice is the same
    obtain ⟨part', hpart', -⟩ := Query.free_mono (Nat.le_max_right bound fuel) rfl hpart
    obtain ⟨i', -, inner', hs', -, -, hnone⟩ := hchoice (max bound fuel) (Nat.le_max_left _ _)
    obtain ⟨-, rfl, -⟩ := Split.choice.inj (hs.symm.trans hs')
    refine Nat.le_of_not_lt fun hji => ?_
    simp [hnone j hji b hb] at hpart'
  · trivial

end Grammar

/-! ### Whole texts -/

section Whole

variable {g : Grammar} (hg : g.Valid) (hreg : g.Regular)
  (hlimit : g.limits.recursionLimit = none) {d : DefId} (hd : d < g.size) {text : Text}
include hg hreg hlimit hd

/-- A sequence accepts a text that its items can tile. -/
theorem accepts_sequence_iff {items : List DefId} (hshape : g.shape d = .sequence items) :
    g.Accepts d text ↔ ∃ ends, g.Tiling text (byteLength text) items 0 ends := by
  have hlt : ∀ item ∈ items, item < g.size := fun item hitem =>
    hg.references_shape (d := d) (by rw [hshape]; exact hitem)
  have hfollows := Query.sequenceFollows_unpruned (q := g.query text) rfl d items.length 0
    (byteLength text)
  simp only [Grammar.accepts_iff_shape hg hlimit hd, Query.plainShape, hshape, Option.isSome_map]
  constructor
  · rintro ⟨fuel, hfuel⟩
    obtain ⟨parts, hparts⟩ := Option.isSome_iff_exists.1 hfuel
    exact ⟨_, Query.tiling_of_plainSequence hg hlimit hlt hfollows List.drop_zero
      (IsRange.whole text) hparts⟩
  · rintro ⟨ends, hends⟩
    obtain ⟨bound, hbound⟩ := Query.plainSequence_first hg hreg hlimit hlt hfollows
      List.drop_zero (isBoundary_zero text) hends
    obtain ⟨parts, hparts, -⟩ := hbound bound (Nat.le_refl _)
    exact ⟨bound, Option.isSome_of_eq_some hparts⟩

omit hreg in
/-- A literal accepts its own text alone. -/
theorem accepts_literal_iff {w : Text} (hshape : g.shape d = .literal w) :
    g.Accepts d text ↔ text = w := by
  simp only [Grammar.accepts_iff_shape hg hlimit hd, Query.plainShape, hshape, exists_const]
  change (Query.plainLeaf 0 _ (slice text 0 (byteLength text) == w)).isSome ↔ _
  rw [slice_eq_of_slice? (slice?_whole text), Query.plainLeaf]
  by_cases h : text = w <;> simp [h]

omit hreg in
/-- A choice accepts a text that one of its alternatives accepts. -/
theorem accepts_choice_iff {alternatives : List DefId} (hshape : g.shape d = .choice alternatives) :
    g.Accepts d text ↔ ∃ a ∈ alternatives, g.Accepts a text := by
  have hlt : ∀ a ∈ alternatives, a < g.size := fun a ha =>
    hg.references_shape (d := d) (by rw [hshape]; exact ha)
  simp only [Grammar.accepts_iff_shape hg hlimit hd, Query.plainShape, hshape]
  constructor
  · rintro ⟨fuel, hfuel⟩
    obtain ⟨s, hs⟩ := Option.isSome_iff_exists.1 hfuel
    obtain ⟨i, a, inner, -, ha, hinner, -⟩ := Query.plainChoice_least rfl hs
    have hmem := List.mem_of_getElem? ha
    exact ⟨a, hmem, (Grammar.accepts_iff hg hlimit (hlt a hmem)).2
      ⟨fuel, Option.isSome_of_eq_some hinner⟩⟩
  · rintro ⟨a, ha, haccepts⟩
    obtain ⟨fuel, hfuel⟩ := (Grammar.accepts_iff hg hlimit (hlt a ha)).1 haccepts
    exact ⟨fuel, Query.isSome_plainChoice rfl ha hfuel 0⟩

end Whole

/-- **The split of a text is the preferred one, at every depth**, when the engine keeps its laws, no
pattern has a condition on a position, the nesting is not limited and nothing is refused, as in a
grammar without left recursion.  For a sequence in it, no other row of ends that tile the range comes
before the ends of its parts; a choice in it has the first alternative that accepts its range.  A text
of a sequence or a choice is rejected only when there is no such row or alternative. -/
theorem resolve_preferred {draft : Draft} {g : Grammar} (hbuild : draft.build = .ok g)
    (hlawful : g.engine.Lawful) (hfree : g.LookFree) (hlimit : g.limits.recursionLimit = none)
    {d : DefId} (hd : d < g.size) (text : Text)
    (hcalm : g.refusals d text = 0 ∨ ¬ g.LeftRecursive) :
    (∀ split, (resolve g d text).result = .ok split →
      ∀ u e, split.Inside g d u e → g.Preferred text e u) ∧
    (∀ items, g.shape d = .sequence items →
      (g.Accepts d text ↔ ∃ ends, g.Tiling text (byteLength text) items 0 ends)) ∧
    (∀ alternatives, g.shape d = .choice alternatives →
      (g.Accepts d text ↔ ∃ a ∈ alternatives, g.Accepts a text)) ∧
    (g.Accepts d text ∨ ∃ r, (resolve g d text).result = .error (.rejected r)) := by
  have hg := Draft.build_valid hbuild
  have hreg : g.Regular := ⟨hlawful, hfree⟩
  refine ⟨fun split h u e hinside => ?_, fun items hshape => ?_, fun alternatives hshape => ?_,
    resolve_ok_or_rejected hg hlimit hd text⟩
  · exact ((finds_of_resolve hg hreg hlimit hd hcalm h).inside hg hinside).preferred hg hreg hlimit
  · exact accepts_sequence_iff hg hreg hlimit hd hshape
  · exact accepts_choice_iff hg hlimit hd hshape

/-- A letter, or letters in two runs, of which the first is lazy. -/
def runRules : Array Rule :=
  #[.literal ['a'], .loop 0 ⟨0, none, .lazy⟩, .loop 0 ⟨0, none, .greedy⟩, .sequence [1, 2],
    .choice [0, 3]]

/-- The draft of the runs. -/
def runDraft : Draft := ⟨runRules.map some, .empty, {}, .standard⟩

/-- The grammar of the runs. -/
def runGrammar : Grammar where
  rules := runRules
  resolved := #[0, 1, 2, 3, 4]
  names := .empty
  limits := {}
  engine := .standard
  acceptors := Acceptors.ofRules .standard runRules {} #[none, none, none, none, none]

theorem runDraft_build : runDraft.build = .ok runGrammar := by with_unfolding_all rfl

/-- No run is a pattern. -/
theorem runGrammar_lookFree : runGrammar.LookFree :=
  Grammar.lookFree_of_rules (by simp [runGrammar, runRules])

theorem runGrammar_not_leftRecursive : ¬ runGrammar.LeftRecursive :=
  (Draft.build_valid runDraft_build).not_leftRecursive (by decide)

/-- Two letters as an empty run and a run of both. -/
def runSplit : Split :=
  .choice ⟨0, 2⟩ 1 (.sequence ⟨0, 2⟩ [.loop ⟨0, 0⟩ [], .loop ⟨0, 2⟩ [.leaf ⟨0, 1⟩, .leaf ⟨1, 2⟩]])

set_option maxRecDepth 10000 in
theorem backtrackRun_run : (runGrammar.query ['a', 'a']).backtrackRun 4 = .ok runSplit := by
  with_unfolding_all rfl

theorem resolve_run : (resolve runGrammar 4 ['a', 'a']).result = .ok runSplit :=
  (resolve_ok_iff_backtrackRun (Draft.build_valid runDraft_build)
    ⟨Engine.standard_lawful, runGrammar_lookFree⟩ rfl (by decide)).2 backtrackRun_run

/-- Two letters are not one letter, and in a row of runs the first is as short as possible. -/
theorem resolve_preferred_run :
    runDraft.build = .ok runGrammar ∧ runGrammar.LookFree ∧ ¬ runGrammar.LeftRecursive ∧
      (resolve runGrammar 4 ['a', 'a']).result = .ok runSplit ∧
      runGrammar.Preferred ['a', 'a'] 4 runSplit ∧
      runGrammar.Preferred ['a', 'a'] 3
        (.sequence ⟨0, 2⟩ [.loop ⟨0, 0⟩ [], .loop ⟨0, 2⟩ [.leaf ⟨0, 1⟩, .leaf ⟨1, 2⟩]]) := by
  have hpreferred := (resolve_preferred runDraft_build Engine.standard_lawful runGrammar_lookFree rfl
    (d := 4) (by decide) ['a', 'a'] (.inr runGrammar_not_leftRecursive)).1 runSplit resolve_run
  exact ⟨runDraft_build, runGrammar_lookFree, runGrammar_not_leftRecursive, resolve_run,
    hpreferred _ _ .whole, hpreferred _ _ (.part .whole (List.mem_singleton_self _))⟩

end Tessera
