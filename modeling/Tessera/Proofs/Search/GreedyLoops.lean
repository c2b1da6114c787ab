/-
**How many items a greedy loop has.**

A greedy loop wants as many items as it can have, and tries the shorter items first.  The one does not
follow from the other: a short item may leave a rest that only a long item covers, where a longer item
would leave a rest of many short ones.  With the items `a`, `ab`, `bcd`, `c` and `d`, the letters `abcd`
are split into `a` and `bcd`, though `ab`, `c` and `d` are more.

What the search does ensure is that no item could be two.  The first half of such an item would have been
preferred, and the rest of the loop stays as it is, except that an empty item may no longer be needed.  So
when what remains of an item behind any of its positions is an item again, as in a run of letters, no row
of items has more of them.

Main definitions:

* `Tessera.Split.items` — the items of the split of a loop;
* `Tessera.Series.Divides` — a text is made up of two items, with a separator in between if there is one.

Main results:

* `Tessera.Grammar.Trail.later`, `Tessera.Grammar.Trail.later_pair` — what a loop allows, it allows
  after one more item;
* `Tessera.not_divides_of_isFirst` — **no item of a greedy loop could be two**;
* `Tessera.length_le_of_undivided` — items that could not be two are not fewer than others;
* `Tessera.resolve_undivided` — both, for the loops in the split of a text.
-/

import Tessera.Proofs.Search.LoopOrder

set_option autoImplicit false

namespace Tessera

/-! ### Rows after the first end -/

theorem Quantifier.not_prefers_self (quantifier : Quantifier) (e : Nat) :
    ¬ quantifier.Prefers e e := by
  cases quantifier <;> exact Nat.lt_irrefl e

theorem Quantifier.not_prefersItem_self (quantifier : Quantifier) (cursor e : Nat) :
    ¬ quantifier.PrefersItem cursor e e := by
  cases quantifier with
  | greedy => exact fun ⟨hne, h⟩ => h.elim hne (Nat.lt_irrefl e)
  | lazy => exact Nat.lt_irrefl e
  | possessive => exact Nat.lt_irrefl e

namespace Series

variable {l : Series} {g : Grammar} {n cursor e f : Nat}

theorem not_prefers_self : ¬ l.Prefers g n cursor e e := by
  rw [Prefers]
  split
  · exact Quantifier.not_prefers_self _ e
  · exact Quantifier.not_prefersItem_self _ cursor e

/-- What is not a separator is an item. -/
theorem definition_of_item (h : l.isSeparator n = false) : l.definition n = l.item := by
  rw [isSeparator, Bool.and_eq_false_iff, beq_eq_false_iff_ne] at h
  rw [definition]
  rcases h with hnone | hodd
  · rw [Option.isSome_eq_false_iff, Option.isNone_iff_eq_none] at hnone
    rw [hnone]
  · split
    · rw [if_neg hodd]
    · rfl

theorem quantifier_of_item (h : l.isSeparator n = false) :
    l.quantifier g n = l.repetition.quantifier := by
  rw [quantifier, h, if_neg Bool.false_ne_true]

/-- Without separators every element is an item. -/
theorem isSeparator_of_none (h : l.separator = none) (n : Nat) : l.isSeparator n = false := by
  rw [isSeparator, h]; rfl

theorem items_of_none (h : l.separator = none) (n : Nat) : l.items n = n := by
  rw [items, h]; rfl

end Series

namespace Grammar.Trail

variable {g : Grammar} {text : Text} {l : Series} {stop n : Nat} {afterEmpty : Bool}
  {cursor e : Nat} {ends : List Nat}

/-- What follows the first element is the first of what the loop allows there. -/
theorem isFirst_tail (h : IsFirst (g.Trail text l stop n afterEmpty cursor)
      (EndsBefore (l.Prefers g) n cursor) (e :: ends)) :
    IsFirst (g.Trail text l stop (n + 1) (l.isSeparator n && e == cursor) e)
      (EndsBefore (l.Prefers g) (n + 1) e) ends := by
  obtain ⟨⟨hincomplete, hend, huseful, hrest⟩, hbefore⟩ := h
  refine ⟨hrest, fun other hother => ?_⟩
  rcases hbefore (e :: other) ⟨hincomplete, hend, huseful, hother⟩ with heq | hless
  · exact .inl (List.cons.inj heq).2
  · cases hless with
    | here hprefers => exact absurd hprefers Series.not_prefers_self
    | next hless => exact .inr hless

/-! ### Rows after one more item -/

/-- Without separators, what a loop allows it also allows after one more item, except that it may need
one empty item less. -/
theorem later (hseparator : l.separator = none)
    (h : g.Trail text l stop n false cursor ends) (hcursor : IsBoundary text cursor)
    (hmax : l.repetition.admits (n + ends.length + 1) = true) :
    ∃ ends', g.Trail text l stop (n + 1) false cursor ends' := by
  have hitem := Series.isSeparator_of_none hseparator
  induction ends generalizing n cursor with
  | nil =>
      obtain ⟨hstop, -, -⟩ : l.IsComplete stop n cursor := h
      refine ⟨[], hstop, fun hsome => ?_, ?_⟩
      · rw [hseparator] at hsome; cases hsome
      · rwa [Series.items_of_none hseparator]
  | cons e ends ih =>
      have hrange := h.isRange hcursor
      obtain ⟨hincomplete, hend, huseful, hrest⟩ := h
      rw [hitem, Bool.false_and] at hrest
      by_cases he : e = cursor
      · subst he
        exact ⟨ends, hrest⟩
      · obtain ⟨ends', hends'⟩ := ih hrest hend.range.right (by
          rwa [List.length_cons, show n + (ends.length + 1) = n + 1 + ends.length by omega] at hmax)
        have hlt : cursor < stop := by
          have := hend.range.le
          have := (hrest.isRange hend.range.right).le
          omega
        refine ⟨e :: ends', fun hcomplete => ?_, ?_, fun heq => absurd heq he, ?_⟩
        · exact absurd hcomplete.atStop (Nat.ne_of_lt hlt)
        · rwa [Series.quantifier_of_item (hitem _), Series.definition_of_item (hitem _)] at hend ⊢
        · rwa [hitem, Bool.false_and]

/-- With separators, what a loop allows after an item it also allows after one more separator and item,
except that it may need one empty separator and item less. -/
theorem later_pair {separator : DefId} (hseparator : l.separator = some separator)
    (hodd : n % 2 = 1) (h : g.Trail text l stop n afterEmpty cursor ends)
    (hcursor : IsBoundary text cursor)
    (hmax : l.repetition.admits (l.items (n + ends.length) + 1) = true) :
    ∃ ends', g.Trail text l stop (n + 2) false cursor ends' := by
  have hitems : ∀ k, l.items (k + 2) = l.items k + 1 := fun k => by
    rw [Series.items, Series.items, hseparator]
    exact (Nat.add_div_right (k + 1) (by omega : 0 < 2))
  have hisSeparator : ∀ k, l.isSeparator (k + 2) = l.isSeparator k := fun k => by
    rw [Series.isSeparator, Series.isSeparator, Nat.add_mod_right]
  have hdefinition : ∀ k, l.definition (k + 2) = l.definition k := fun k => by
    rw [Series.definition, Series.definition, hseparator, Nat.add_mod_right]
  have hquantifier : ∀ k, l.quantifier g (k + 2) = l.quantifier g k := fun k => by
    rw [Series.quantifier, Series.quantifier, hisSeparator, hdefinition]
  have heven : ∀ k e, k % 2 = 1 → ¬ l.IsComplete stop (k + 1) e := fun k e hk hcomplete => by
    have := hcomplete.afterItem (by rw [hseparator]; rfl)
    omega
  induction ends using List.twoStepInduction generalizing n afterEmpty cursor with
  | nil =>
      obtain ⟨hstop, -, -⟩ : l.IsComplete stop n cursor := h
      refine ⟨[], hstop, fun _ => .inr (by omega), ?_⟩
      rwa [hitems]
  | singleton e => exact absurd h.2.2.2 (heven n e hodd)
  | cons_cons s i ends ih =>
      have hrange := h.isRange hcursor
      obtain ⟨hincomplete, hs, -, -, hi, -, hrest⟩ := h
      have hnext : l.isSeparator (n + 1) = false := by
        rw [Series.isSeparator, Bool.and_eq_false_iff, beq_eq_false_iff_ne]
        exact .inr (by omega)
      rw [hnext, Bool.false_and] at hrest
      by_cases hempty : s = cursor ∧ i = s
      · obtain ⟨rfl, rfl⟩ := hempty
        exact ⟨ends, hrest⟩
      · obtain ⟨ends', hends'⟩ := ih (n := n + 2) (by omega) hrest hi.range.right (by
          rwa [List.length_cons, List.length_cons,
            show n + (ends.length + 1 + 1) = n + 2 + ends.length by omega] at hmax)
        have hlt : cursor < stop := by
          have := hs.range.le
          have := hi.range.le
          have := (hrest.isRange hi.range.right).le
          omega
        refine ⟨s :: i :: ends', fun hcomplete => absurd hcomplete.atStop (Nat.ne_of_lt hlt), ?_,
          fun _ hitem => ?_, heven (n + 2) s (by omega), ?_, fun heq _ hafter => ?_, ?_⟩
        · rwa [hquantifier, hdefinition]
        · simp [Series.isSeparator, hseparator, hodd] at hitem
        · rwa [show n + 2 + 1 = n + 1 + 2 by omega, hquantifier, hdefinition]
        · rcases hafter with hnone | hafter
          · rw [hseparator] at hnone; cases hnone
          · rw [Bool.and_eq_true, beq_iff_eq] at hafter
            exact absurd ⟨hafter.2, heq⟩ hempty
        · rwa [show n + 2 + 1 = n + 1 + 2 by omega, hisSeparator, hnext, Bool.false_and]

end Grammar.Trail

/-! ### Items that could be two -/

/-- The text is made up of two items, with a separator in between if the loop has one. -/
def Series.Divides (l : Series) (g : Grammar) (w : Text) : Prop :=
  ∃ u v t, w = u ++ v ++ t ∧ u ≠ [] ∧ t ≠ [] ∧ g.Accepts l.item u ∧ g.Accepts l.item t ∧
    match l.separator with
    | some separator => g.Accepts separator v
    | none => v = []

section Division

variable {g : Grammar} {text : Text} {l : Series} {stop n : Nat} {afterEmpty : Bool} {cursor : Nat}
  (hgreedy : l.repetition.quantifier = .greedy)
include hgreedy

/-- A greedy loop does not allow a shorter item in the place of its first. -/
theorem not_trail_shorter {e r : Nat} {ends others : List Nat}
    (hfirst : IsFirst (g.Trail text l stop n afterEmpty cursor)
      (EndsBefore (l.Prefers g) n cursor) (e :: ends))
    (hitem : l.isSeparator n = false) (hr : cursor < r) (he : r < e) :
    ¬ g.Trail text l stop n afterEmpty cursor (r :: others) := by
  intro hother
  rcases hfirst.before _ hother with heq | hless
  · exact absurd (List.cons.inj heq).1 (Nat.ne_of_lt he)
  · cases hless with
    | here hprefers =>
        rw [Series.Prefers, hitem, if_neg Bool.false_ne_true, hgreedy] at hprefers
        obtain ⟨-, h⟩ := hprefers
        omega
    | next => exact absurd he (Nat.lt_irrefl _)

/-- The items of a greedy loop may end wherever they are accepted. -/
theorem mayEnd_of_accepts {k : Nat} (hitem : l.isSeparator k = false) {w : Text} {s e : Nat}
    (hw : slice? text s e = some w) (haccepts : g.Accepts l.item w) :
    g.MayEnd text (l.quantifier g k) (l.definition k) s stop e := by
  rw [Series.quantifier_of_item hitem, hgreedy, Series.definition_of_item hitem]
  refine ⟨.of_slice? hw, ?_, fun h => by cases h⟩
  rwa [slice_eq_of_slice? hw]

variable (hpossessive : ∀ separator, l.separator = some separator →
    g.itemQuantifier separator ≠ .possessive)
include hpossessive

/-- Where a greedy loop allows an item that could be two, it allows two items. -/
theorem trail_of_divides {e : Nat} {ends : List Nat}
    (h : g.Trail text l stop n afterEmpty cursor (e :: ends))
    (hmax : l.repetition.admits (l.items (n + (ends.length + 1)) + 1) = true)
    (hitem : l.isSeparator n = false) (hdivides : l.Divides g (slice text cursor e)) :
    ∃ r others, cursor < r ∧ r < e ∧ g.Trail text l stop n afterEmpty cursor (r :: others) := by
  obtain ⟨u, v, t, hw, hu, ht, hu', ht', hbetween⟩ := hdivides
  obtain ⟨hincomplete, hend, -, hrest⟩ := h
  rw [hitem, Bool.false_and] at hrest
  have hstop := (hrest.isRange hend.range.right).le
  obtain ⟨huv, hslicet⟩ := slice?_append (hend.range.slice?.trans (congrArg some hw))
  obtain ⟨hsliceu, hslicev⟩ := slice?_append huv
  have hr : cursor < cursor + byteLength u := by
    have := byteLength_pos hu
    omega
  have hs : cursor + byteLength (u ++ v) < e := by
    have := byteLength_pos ht
    have := slice?_stop hslicet
    omega
  have hle := slice?_le hslicev
  have hfirst : g.MayEnd text (l.quantifier g n) (l.definition n) cursor stop
      (cursor + byteLength u) := mayEnd_of_accepts hgreedy hitem hsliceu hu'
  cases hseparator : l.separator with
  | none =>
      rw [hseparator] at hbetween
      obtain rfl : v = [] := hbetween
      have hitem' := Series.isSeparator_of_none hseparator
      rw [List.append_nil] at hslicet hs
      obtain ⟨ends', hends'⟩ := hrest.later hseparator hend.range.right (by
        rwa [Series.items_of_none hseparator, Nat.add_comm ends.length, ← Nat.add_assoc] at hmax)
      refine ⟨_, e :: ends', hr, hs, hincomplete, hfirst, fun h => absurd h (Nat.ne_of_gt hr),
        fun hcomplete => ?_, mayEnd_of_accepts hgreedy (hitem' (n + 1)) hslicet ht',
        fun h => absurd h (Nat.ne_of_gt hs), ?_⟩
      · have := hcomplete.atStop
        omega
      · rwa [hitem', Bool.false_and]
  | some separator =>
      rw [hseparator] at hbetween
      have heven : n % 2 ≠ 1 := fun hodd => by
        simp [Series.isSeparator, hseparator, hodd] at hitem
      have hnext : l.isSeparator (n + 1) = true := by
        rw [Series.isSeparator, hseparator, Bool.and_eq_true, beq_iff_eq]
        exact ⟨rfl, by omega⟩
      have hitem' : l.isSeparator (n + 2) = false := by
        rwa [Series.isSeparator, Nat.add_mod_right]
      have hdefinition : l.definition (n + 1) = separator := by
        rw [Series.definition, hseparator]
        exact if_pos (by omega)
      obtain ⟨ends', hends'⟩ := hrest.later_pair hseparator (by omega) hend.range.right (by
        rwa [Nat.add_comm ends.length, ← Nat.add_assoc] at hmax)
      refine ⟨_, (cursor + byteLength (u ++ v)) :: e :: ends', hr, by omega, hincomplete, hfirst,
        fun h => absurd h (Nat.ne_of_gt hr), fun hcomplete => ?_, ?_, fun _ hnot => ?_,
        fun hcomplete => ?_, mayEnd_of_accepts hgreedy hitem' hslicet ht',
        fun h => absurd h (Nat.ne_of_gt hs), ?_⟩
      · have := hcomplete.atStop
        omega
      · rw [Series.quantifier, if_pos hnext, hdefinition]
        refine ⟨.of_slice? hslicev, ?_, fun h => absurd h (hpossessive separator hseparator)⟩
        rwa [slice_eq_of_slice? hslicev]
      · rw [hnext] at hnot; cases hnot
      · have := hcomplete.atStop
        omega
      · rwa [show n + 1 + 1 = n + 2 from rfl, hitem', Bool.false_and]

/-- **No item of a greedy loop could be two**, as long as one more item is admitted. -/
theorem not_divides_of_isFirst {parts : List Split}
    (hfirst : IsFirst (g.Trail text l stop n afterEmpty cursor)
      (EndsBefore (l.Prefers g) n cursor) (stops parts))
    (htiles : Tiles cursor stop parts)
    (hmax : l.repetition.admits (l.items (n + parts.length) + 1) = true) {i : Nat} {u : Split}
    (hu : parts[i]? = some u) (hitem : l.isSeparator (n + i) = false) :
    ¬ l.Divides g (u.content text) := by
  induction parts generalizing n afterEmpty cursor i with
  | nil => simp at hu
  | cons part parts ih =>
      obtain ⟨rfl, htiles⟩ := htiles
      rw [List.length_cons] at hmax
      cases i with
      | zero =>
          obtain rfl : part = u := by simpa using hu
          intro hdivides
          obtain ⟨r, others, hr, he, hothers⟩ := trail_of_divides hgreedy hpossessive hfirst.mem
            (by rwa [List.length_map]) hitem hdivides
          exact not_trail_shorter hgreedy hfirst hitem hr he hothers
      | succ i =>
          refine ih (Grammar.Trail.isFirst_tail hfirst) htiles ?_ (by simpa using hu) ?_
          · rwa [Nat.add_assoc, Nat.add_comm 1]
          · rwa [Nat.add_assoc, Nat.add_comm 1]

end Division

/-! ### The largest number of items -/

/-- **Items that could not be two are not fewer than others**, when what remains of an item behind any of
its positions is an item again. -/
theorem length_le_of_undivided {L : Text → Prop} (hsuffix : ∀ u v, v ≠ [] → L (u ++ v) → L v)
    {ws us : List Text} (hws : ∀ w ∈ ws, w ≠ [] → L w)
    (hundivided : ∀ w ∈ ws, ∀ u v, w = u ++ v → u ≠ [] → v ≠ [] → L u → ¬ L v)
    (hus : ∀ u ∈ us, u ≠ [] ∧ L u) (h : us.flatten = ws.flatten) : us.length ≤ ws.length := by
  induction ws generalizing us with
  | nil =>
      cases us with
      | nil => exact Nat.le_refl 0
      | cons u us =>
          have hnil := (List.append_eq_nil_iff.1 h).1
          exact absurd hnil (hus u List.mem_cons_self).1
  | cons w ws ih =>
      rw [List.forall_mem_cons] at hws hundivided
      obtain ⟨hw, hws⟩ := hws
      obtain ⟨hwundivided, hundivided⟩ := hundivided
      cases us with
      | nil => exact Nat.zero_le _
      | cons u us =>
          rw [List.forall_mem_cons] at hus
          obtain ⟨⟨hu, hLu⟩, hus⟩ := hus
          rw [List.flatten_cons, List.flatten_cons] at h
          rw [List.length_cons, List.length_cons]
          rcases List.append_eq_append_iff.1 h with ⟨v, rfl, hrest⟩ | ⟨v, rfl, hrest⟩
          · -- the item begins with `u`, so it is `u`
            by_cases hv : v = []
            · subst hv
              exact Nat.succ_le_succ (ih hws hundivided hus hrest)
            · have hLv := hsuffix u v hv (hw (List.append_ne_nil_of_left_ne_nil hu v))
              exact absurd hLv (hwundivided u v rfl hu hv hLu)
          · -- what is left of `u` behind the item is an item again
            by_cases hv : v = []
            · subst hv
              exact Nat.succ_le_succ (ih hws hundivided hus hrest.symm)
            · have hLv := hsuffix w v hv hLu
              have := ih hws hundivided (List.forall_mem_cons.2 ⟨⟨hv, hLv⟩, hus⟩) hrest.symm
              rw [List.length_cons] at this
              omega

/-! ### Splits of loops -/

/-- The items of the split of a loop. -/
def Split.items : Split → List Split
  | .loop _ items => items
  | .separated _ items _ => items
  | _ => []

namespace LoopPlan

variable {p : LoopPlan} {elements : List Split}

theorem length_items_toSplit : (p.toSplit elements).items.length = p.series.items elements.length := by
  rw [toSplit, Series.items, series]
  split
  · exact length_items elements
  · rfl

/-- The items of a loop are the elements that are not separators. -/
theorem exists_getElem?_of_mem_items {u : Split} (h : u ∈ (p.toSplit elements).items) :
    ∃ i, elements[i]? = some u ∧ p.series.isSeparator i = false := by
  rw [toSplit] at h
  split at h
  · have hmem : (u, 0) ∈ interleave ((items elements).map (·, 0)) ((separators elements).map (·, 1)) :=
      mem_interleave_iff.2 (.inl (List.mem_map.2 ⟨u, h, rfl⟩))
    obtain ⟨i, hi, hzero⟩ := exists_getElem?_of_mem_interleave hmem
    refine ⟨i, hi, ?_⟩
    rw [Series.isSeparator, Bool.and_eq_false_iff, beq_eq_false_iff_ne]
    exact .inr fun hodd => by simp [hodd] at hzero
  · next hseparator =>
    obtain ⟨i, hi⟩ := List.mem_iff_getElem?.1 h
    refine ⟨i, hi, ?_⟩
    rw [Series.isSeparator, Bool.and_eq_false_iff]
    exact .inl (by simpa [series] using hseparator)

theorem tiles_of_fits {g : Grammar} {text : Text} {d : DefId}
    (h : (p.toSplit elements).Fits g text d) : Tiles p.start p.stop elements := by
  rw [toSplit] at h
  split at h
  · rw [Split.Fits, interleave_items_separators] at h
    exact h.2.1
  · rw [Split.Fits] at h
    exact h.2.1

end LoopPlan

/-- What the free search finds is accepted. -/
theorem Grammar.Finds.accepts {g : Grammar} (hg : g.Valid)
    (hlimit : g.limits.recursionLimit = none) {text : Text} {d : DefId} {s : Split}
    (h : g.Finds text d s) : g.Accepts d (s.content text) := by
  obtain ⟨fuel, hfuel⟩ := h.found.exists
  exact (Grammar.accepts_slice hg hlimit h.definition h.range).2
    ⟨fuel, Option.isSome_of_eq_some hfuel⟩

section Loops

variable {g : Grammar} (hg : g.Valid) (hreg : g.Regular)
  (hlimit : g.limits.recursionLimit = none) {text : Text} {d item : DefId}
  {separator : Option DefId} {r : Repetition} {s : Split}
include hg hreg hlimit

/-- No item of a greedy loop that the free search finds could be two. -/
theorem Grammar.Finds.not_divides (h : g.Finds text d s) (hshape : g.Repeats d item separator r)
    (hgreedy : r.quantifier = .greedy)
    (hpossessive : ∀ b, separator = some b → g.itemQuantifier b ≠ .possessive)
    (hmax : r.admits (s.items.length + 1) = true) {u : Split} (hu : u ∈ s.items) :
    ¬ Series.Divides ⟨item, separator, r⟩ g (u.content text) := by
  obtain ⟨elements, hs, hfirst⟩ := h.elements hg hreg hlimit hshape
  rw [← hs] at hmax hu
  rw [LoopPlan.length_items_toSplit] at hmax
  obtain ⟨i, hi, hitem⟩ := LoopPlan.exists_getElem?_of_mem_items hu
  have hfits := h.fits hg
  rw [← hs] at hfits
  refine not_divides_of_isFirst hgreedy hpossessive hfirst (LoopPlan.tiles_of_fits hfits) ?_ hi ?_
  · rwa [Nat.zero_add]
  · rwa [Nat.zero_add]

/-- The split of a loop without separators: its items make up its text, each of them is accepted, and
their number is admitted. -/
theorem Grammar.Finds.items (h : g.Finds text d s) (hshape : g.shape d = .loop item r) :
    (s.items.map (Split.content text)).flatten = s.content text ∧
      (∀ u ∈ s.items, g.Accepts item (u.content text)) ∧ r.admits s.items.length = true := by
  have hrepeats : g.Repeats d item none r := hshape
  obtain ⟨elements, hs, -⟩ := h.elements hg hreg hlimit hrepeats
  have hs : s = .loop ⟨s.span.start, s.span.stop⟩ elements := hs.symm
  have hparts : ∀ u ∈ elements, g.Finds text item u := fun u hu => by
    have hpart : (u, item) ∈ s.parts g d := by
      rw [hs]
      simp only [Split.parts, hshape]
      exact List.mem_map.2 ⟨u, hu, rfl⟩
    exact h.inside hg (.part .whole hpart)
  have hfits := h.fits hg
  rw [hs, Split.Fits, hshape] at hfits
  obtain ⟨hrange, htiles, item', r', heq, hadmits, -⟩ := hfits
  obtain ⟨rfl, rfl⟩ := Rule.loop.inj heq
  rw [hs]
  refine ⟨htiles.flatten hrange.left fun u hu => (hparts u hu).range, fun u hu => ?_, hadmits⟩
  exact (hparts u hu).accepts hg hlimit

/-- When what remains of an item behind any of its positions is an item again, no other row of items has
more of them. -/
theorem Grammar.Finds.length_le (h : g.Finds text d s) (hshape : g.shape d = .loop item r)
    (hgreedy : r.quantifier = .greedy)
    (hsuffix : ∀ u v, v ≠ [] → g.Accepts item (u ++ v) → g.Accepts item v) {us : List Text}
    (htext : us.flatten = s.content text) (hus : ∀ u ∈ us, u ≠ [] ∧ g.Accepts item u)
    (hadmits : r.admits us.length = true) : us.length ≤ s.items.length := by
  have hrepeats : g.Repeats d item none r := hshape
  obtain ⟨hflatten, haccepts, hcount⟩ := h.items hg hreg hlimit hshape
  by_cases hmax : r.admits (s.items.length + 1) = true
  · have hundivided : ∀ w ∈ s.items.map (Split.content text), ∀ u v, w = u ++ v → u ≠ [] →
        v ≠ [] → g.Accepts item u → ¬ g.Accepts item v := by
      rintro w hw u v rfl hu hv hLu hLv
      obtain ⟨part, hpart, hw⟩ := List.mem_map.1 hw
      refine h.not_divides hg hreg hlimit hrepeats hgreedy (fun _ hnone => by cases hnone) hmax
        hpart ⟨u, [], v, ?_, hu, hv, hLu, hLv, rfl⟩
      rwa [List.append_nil]
    rw [← List.length_map (Split.content text)]
    refine length_le_of_undivided hsuffix (fun w hw _ => ?_) hundivided hus
      (htext.trans hflatten.symm)
    obtain ⟨part, hpart, rfl⟩ := List.mem_map.1 hw
    exact haccepts part hpart
  · -- no further item is admitted
    simp only [Repetition.admits, Bool.and_eq_true, decide_eq_true_eq, not_and,
      Bool.not_eq_true] at hadmits hcount hmax
    cases hr : r.max with
    | none => simp [hr] at hmax; omega
    | some max =>
        simp only [hr, Option.all_some, decide_eq_true_eq, decide_eq_false_iff_not] at *
        omega

end Loops

/-- **What a greedy loop ensures**, anywhere in the split of a text, when the engine keeps its laws, no
pattern has a condition on a position, the nesting is not limited and nothing is refused.  As long as
one more item is admitted, no item could be two items, with a separator in between if the loop has one;
where separators are possessive this is left open.  In a loop without separators, when what remains of
an item behind any of its positions is an item again, no row of non-empty items with an admitted number
has more of them. -/
theorem resolve_undivided {draft : Draft} {g : Grammar} (hbuild : draft.build = .ok g)
    (hlawful : g.engine.Lawful) (hfree : g.LookFree) (hlimit : g.limits.recursionLimit = none)
    {d : DefId} (hd : d < g.size) {text : Text}
    (hcalm : g.refusals d text = 0 ∨ ¬ g.LeftRecursive) {split : Split}
    (h : (resolve g d text).result = .ok split) {s : Split} {e : DefId}
    (hinside : split.Inside g d s e) {item : DefId} {separator : Option DefId} {r : Repetition}
    (hshape : g.Repeats e item separator r) (hgreedy : r.quantifier = .greedy) :
    ((∀ b, separator = some b → g.itemQuantifier b ≠ .possessive) →
      r.admits (s.items.length + 1) = true →
      ∀ u ∈ s.items, ¬ Series.Divides ⟨item, separator, r⟩ g (u.content text)) ∧
    (separator = none → (∀ u v, v ≠ [] → g.Accepts item (u ++ v) → g.Accepts item v) →
      ∀ us : List Text, us.flatten = s.content text → (∀ u ∈ us, u ≠ [] ∧ g.Accepts item u) →
        r.admits us.length = true → us.length ≤ s.items.length) := by
  have hg := Draft.build_valid hbuild
  have hreg : g.Regular := ⟨hlawful, hfree⟩
  have hfinds := (finds_of_resolve hg hreg hlimit hd hcalm h).inside hg hinside
  refine ⟨fun hpossessive hmax u hu => ?_, fun hnone hsuffix us htext hus hadmits => ?_⟩
  · exact hfinds.not_divides hg hreg hlimit hshape hgreedy hpossessive hmax hu
  · subst hnone
    exact hfinds.length_le hg hreg hlimit hshape hgreedy hsuffix htext hus hadmits

/-- Some pieces of the alphabet, any number of them, and any number of one letter. -/
def pieceRules : Array Rule :=
  #[.literal ['a'], .literal ['a', 'b'], .literal ['b', 'c', 'd'], .literal ['c'], .literal ['d'],
    .choice [0, 1, 2, 3, 4], .loop 5 ⟨0, none, .greedy⟩, .loop 0 ⟨0, none, .greedy⟩]

/-- The draft of the pieces. -/
def pieceDraft : Draft := ⟨pieceRules.map some, .empty, {}, .standard⟩

/-- The grammar of the pieces. -/
def pieceGrammar : Grammar where
  rules := pieceRules
  resolved := #[0, 1, 2, 3, 4, 5, 6, 7]
  names := .empty
  limits := {}
  engine := .standard
  acceptors :=
    Acceptors.ofRules .standard pieceRules {} #[none, none, none, none, none, none, none, none]

theorem pieceDraft_build : pieceDraft.build = .ok pieceGrammar := by with_unfolding_all rfl

/-- No piece is a pattern. -/
theorem pieceGrammar_lookFree : pieceGrammar.LookFree :=
  Grammar.lookFree_of_rules (by simp [pieceGrammar, pieceRules])

theorem pieceGrammar_not_leftRecursive : ¬ pieceGrammar.LeftRecursive :=
  (Draft.build_valid pieceDraft_build).not_leftRecursive (by decide)

/-- Four letters in two pieces. -/
def pieceSplit : Split :=
  .loop ⟨0, 4⟩ [.choice ⟨0, 1⟩ 0 (.leaf ⟨0, 1⟩), .choice ⟨1, 4⟩ 2 (.leaf ⟨1, 4⟩)]

set_option maxRecDepth 20000 in
theorem backtrackRun_piece :
    (pieceGrammar.query ['a', 'b', 'c', 'd']).backtrackRun 6 = .ok pieceSplit := by
  with_unfolding_all rfl

theorem resolve_piece : (resolve pieceGrammar 6 ['a', 'b', 'c', 'd']).result = .ok pieceSplit :=
  (resolve_ok_iff_backtrackRun (Draft.build_valid pieceDraft_build)
    ⟨Engine.standard_lawful, pieceGrammar_lookFree⟩ rfl (by decide)).2 backtrackRun_piece

/-- The same letters in three pieces. -/
def morePieces : Split :=
  .loop ⟨0, 4⟩ [.choice ⟨0, 2⟩ 1 (.leaf ⟨0, 2⟩), .choice ⟨2, 3⟩ 3 (.leaf ⟨2, 3⟩),
    .choice ⟨3, 4⟩ 4 (.leaf ⟨3, 4⟩)]

/-- The other way to split them is a derivation as well. -/
theorem morePieces_fits : morePieces.Fits pieceGrammar ['a', 'b', 'c', 'd'] 6 := by
  have hleaf : ∀ (span : Span) (d : DefId) (w : Text), pieceGrammar.shape d = .literal w →
      IsRange ['a', 'b', 'c', 'd'] span.start span.stop →
      slice ['a', 'b', 'c', 'd'] span.start span.stop = w →
      (Split.leaf span).Fits pieceGrammar ['a', 'b', 'c', 'd'] d := by
    intro span d w hshape hrange hslice
    rw [Split.Fits, Grammar.LeafFits, hshape]
    exact ⟨hrange, hslice⟩
  have hpiece : ∀ (span : Span) (i : Nat) (d : DefId) (w : Text),
      [0, 1, 2, 3, 4][i]? = some d → pieceGrammar.shape d = .literal w →
      IsRange ['a', 'b', 'c', 'd'] span.start span.stop →
      slice ['a', 'b', 'c', 'd'] span.start span.stop = w →
      (Split.choice span i (.leaf span)).Fits pieceGrammar ['a', 'b', 'c', 'd'] 5 := by
    intro span i d w hd hshape hrange hslice
    rw [Split.Fits]
    exact ⟨hrange, rfl, [0, 1, 2, 3, 4], d, rfl, hd, hleaf span d w hshape hrange hslice⟩
  rw [morePieces, Split.Fits]
  refine ⟨⟨by decide, rfl, rfl⟩, ⟨rfl, rfl, rfl, rfl⟩, 5, ⟨0, none, .greedy⟩, rfl, rfl,
    Split.fitEach_iff.2 ?_⟩
  simp only [List.forall_mem_cons, List.not_mem_nil, IsEmpty.forall_iff, implies_true, and_true]
  exact ⟨hpiece ⟨0, 2⟩ 1 1 _ rfl rfl ⟨by decide, rfl, rfl⟩ rfl,
    hpiece ⟨2, 3⟩ 3 3 _ rfl rfl ⟨by decide, rfl, rfl⟩ rfl,
    hpiece ⟨3, 4⟩ 4 4 _ rfl rfl ⟨by decide, rfl, rfl⟩ rfl⟩

/-- Two letters, each on its own. -/
def letterSplit : Split := .loop ⟨0, 2⟩ [.leaf ⟨0, 1⟩, .leaf ⟨1, 2⟩]

set_option maxRecDepth 10000 in
theorem backtrackRun_letter : (pieceGrammar.query ['a', 'a']).backtrackRun 7 = .ok letterSplit := by
  with_unfolding_all rfl

theorem resolve_letter : (resolve pieceGrammar 7 ['a', 'a']).result = .ok letterSplit :=
  (resolve_ok_iff_backtrackRun (Draft.build_valid pieceDraft_build)
    ⟨Engine.standard_lawful, pieceGrammar_lookFree⟩ rfl (by decide)).2 backtrackRun_letter

/-- What is left of one letter is the letter. -/
theorem accepts_letter_suffix {u v : Text} (hv : v ≠ []) (h : pieceGrammar.Accepts 0 (u ++ v)) :
    pieceGrammar.Accepts 0 v := by
  have hletter : ∀ w, pieceGrammar.Accepts 0 w ↔ w = ['a'] := fun w =>
    accepts_literal_iff (Draft.build_valid pieceDraft_build) rfl (by decide) rfl
  rw [hletter] at h ⊢
  obtain ⟨rfl, hv'⟩ | ⟨-, rfl⟩ := List.append_eq_singleton_iff.1 h
  · exact hv'
  · exact absurd rfl hv

/-- Neither of the two pieces could be two, though there is a way to have three; two letters are not more
than two items. -/
theorem resolve_undivided_piece :
    pieceDraft.build = .ok pieceGrammar ∧ pieceGrammar.LookFree ∧ ¬ pieceGrammar.LeftRecursive ∧
      (resolve pieceGrammar 6 ['a', 'b', 'c', 'd']).result = .ok pieceSplit ∧
      (∀ u ∈ pieceSplit.items, ¬ Series.Divides ⟨5, none, ⟨0, none, .greedy⟩⟩ pieceGrammar
        (u.content ['a', 'b', 'c', 'd'])) ∧
      (resolve pieceGrammar 7 ['a', 'a']).result = .ok letterSplit ∧
      ∀ us : List Text, us.flatten = ['a', 'a'] → (∀ u ∈ us, u ≠ [] ∧ pieceGrammar.Accepts 0 u) →
        us.length ≤ 2 := by
  have hpieces := (resolve_undivided pieceDraft_build Engine.standard_lawful pieceGrammar_lookFree
    rfl (d := 6) (by decide) (.inr pieceGrammar_not_leftRecursive) resolve_piece .whole
    (show pieceGrammar.Repeats 6 5 none ⟨0, none, .greedy⟩ from rfl) rfl).1
    (fun _ hnone => by cases hnone) rfl
  have hletters := (resolve_undivided pieceDraft_build Engine.standard_lawful pieceGrammar_lookFree
    rfl (d := 7) (by decide) (.inr pieceGrammar_not_leftRecursive) resolve_letter .whole
    (show pieceGrammar.Repeats 7 0 none ⟨0, none, .greedy⟩ from rfl) rfl).2 rfl
    (fun u v hv => accepts_letter_suffix hv)
  exact ⟨pieceDraft_build, pieceGrammar_lookFree, pieceGrammar_not_leftRecursive, resolve_piece,
    hpieces, resolve_letter, fun us htext hus => hletters us htext hus (by simp [Repetition.admits])⟩

/-- A greedy loop may have fewer items than another derivation of non-empty items. -/
theorem resolve_fewer_items :
    pieceDraft.build = .ok pieceGrammar ∧ pieceGrammar.LookFree ∧
      pieceGrammar.limits.recursionLimit = none ∧ ¬ pieceGrammar.LeftRecursive ∧
      pieceGrammar.shape 6 = .loop 5 ⟨0, none, .greedy⟩ ∧
      (resolve pieceGrammar 6 ['a', 'b', 'c', 'd']).result = .ok pieceSplit ∧
      morePieces.Fits pieceGrammar ['a', 'b', 'c', 'd'] 6 ∧
      (∀ u ∈ morePieces.items, u.span.start < u.span.stop) ∧
      pieceSplit.items.length < morePieces.items.length :=
  ⟨pieceDraft_build, pieceGrammar_lookFree, rfl, pieceGrammar_not_leftRecursive, rfl, resolve_piece,
    morePieces_fits, by decide, by decide⟩

end Tessera
