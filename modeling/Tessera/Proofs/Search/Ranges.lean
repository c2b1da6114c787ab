/-
**Ranges that a search goes through.**

A search that begins on a range between two boundaries stays on such ranges: every candidate for the
end of an element lies inside of the range and is a boundary, so it cuts the range in two.

Main definitions:

* `Tessera.IsRange` — two boundaries of a text, in order.

Main results:

* `Tessera.Query.isRange_of_mem_allEnds` — **a candidate cuts the range in two**;
* `Tessera.Query.mem_allEnds_of_loopEnds`, `Tessera.Query.mem_allEnds_of_ends` — nothing but
  candidates is tried.
-/

import Tessera.Proofs.Grammar.Valid
import Tessera.Proofs.Pattern.Positions
import Tessera.Proofs.Text.Slices
import Tessera.Search.Loop

set_option autoImplicit false

namespace Tessera

/-- Two boundaries of a text, in order. -/
structure IsRange (text : Text) (start stop : Nat) : Prop where
  le : start ≤ stop
  left : IsBoundary text start
  right : IsBoundary text stop

namespace IsRange

variable {text : Text} {start stop n : Nat}

theorem whole (text : Text) : IsRange text 0 (byteLength text) :=
  ⟨Nat.zero_le _, isBoundary_zero text, isBoundary_byteLength text⟩

theorem slice? (h : IsRange text start stop) :
    Tessera.slice? text start stop = some (slice text start stop) :=
  exists_slice? h.le h.left h.right

theorem of_slice? {w : Text} (h : Tessera.slice? text start stop = some w) :
    IsRange text start stop :=
  ⟨slice?_le h, slice?_isBoundary_start h, slice?_isBoundary_stop h⟩

/-- A boundary of the slice cuts the range in two. -/
theorem cut (h : IsRange text start stop) (hn : IsBoundary (slice text start stop) n) :
    IsRange text start (start + n) ∧ IsRange text (start + n) stop :=
  have hcut := slice?_boundary h.slice? hn
  ⟨of_slice? hcut.1, of_slice? hcut.2⟩

end IsRange

/-! ### Acceptors of a valid grammar -/

/-- An array with a member for each number below `n`. -/
theorem getD_map_range {α : Type} (f : Nat → α) (n i : Nat) (default : α) :
    ((Array.range n).map f).getD i default = if i < n then f i else default := by
  simp only [Array.getD_eq_getD_getElem?, Array.getElem?_map, Array.getElem?_range]
  split <;> rfl

/-- The matcher of a definition is that of its template; outside of the table everything is empty.
-/
theorem Grammar.Valid.definition_eq {g : Grammar} (h : g.Valid) (d : DefId) :
    g.acceptors.definition d =
      Matcher.ofPattern g.engine (if d < g.size then g.template d else .empty).toText := by
  obtain ⟨leaves, hacceptors⟩ := h.acceptors
  rw [hacceptors]
  simp only [Acceptors.ofRules]
  rw [getD_map_range, Grammar.size]
  split <;> rfl

/-! ### Candidates -/

theorem Quantifier.mem_of_order {quantifier : Quantifier} {ends : List Nat} {e : Nat}
    (h : e ∈ quantifier.order ends) : e ∈ ends := by
  cases quantifier with
  | greedy => simpa [order] using h
  | lazy => exact h
  | possessive =>
      simp only [order, Option.mem_toList] at h
      exact List.mem_of_getLast? h

theorem LoopPlan.mem_of_itemOrder {p : LoopPlan} {cursor : Nat} {ends : List Nat} {e : Nat}
    (h : e ∈ p.itemOrder cursor ends) : e ∈ ends := by
  unfold itemOrder at h
  split at h
  · split at h
    · split at h
      · simp only [List.cons_append, List.mem_append, List.mem_cons, List.not_mem_nil,
          or_false] at h ⊢
        rcases h with h | h | h
        · exact .inr (.inl h)
        · exact .inr (.inr h)
        · exact .inl h
      · exact h
    · exact h
  · exact Quantifier.mem_of_order h
  · exact Quantifier.mem_of_order h

namespace Query

variable {q : Query} {item : DefId} {cursor stop e : Nat} {p : LoopPlan} {trail : List Split}

theorem mem_allEnds_of_ends (h : e ∈ q.ends item cursor stop) : e ∈ q.allEnds item cursor stop :=
  Quantifier.mem_of_order h

theorem mem_allEnds_of_loopEnds (h : e ∈ q.loopEnds p trail cursor) :
    e ∈ q.allEnds (p.element trail) cursor p.stop := by
  simp only [loopEnds, List.mem_filter] at h
  obtain ⟨⟨h, _⟩, _⟩ := h
  split at h
  · exact mem_allEnds_of_ends h
  · exact LoopPlan.mem_of_itemOrder h

theorem isUseful_of_loopEnds (h : e ∈ q.loopEnds p trail cursor) :
    p.isUseful trail cursor e = true := by
  simp only [loopEnds, List.mem_filter] at h
  exact h.1.2

/-- **A candidate cuts the range in two.** -/
theorem isRange_of_mem_allEnds (hg : q.grammar.Valid) (hrange : IsRange q.text cursor stop)
    (h : e ∈ q.allEnds item cursor stop) : IsRange q.text cursor e ∧ IsRange q.text e stop := by
  obtain ⟨n, hn, rfl⟩ := List.mem_map.1 h
  rw [hg.definition_eq] at hn
  exact hrange.cut (Matcher.prefixEnds_isBoundary hn)

end Query

end Tessera
