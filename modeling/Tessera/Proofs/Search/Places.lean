/-
**Places of rejections.**

A rejection names two places of the text, where its range begins and where it ends.  Both are found by
reading the text from its beginning, so they are right wherever a range may begin or end, and the range
never ends on an earlier line than it begins, nor on the same line in an earlier column.

Main results:

* `Tessera.locations_in_order` — **locations count line breaks and characters, and the end of what was
  rejected does not come before its beginning**.
-/

import Tessera.Proofs.Search.Messages
import Tessera.Proofs.Text.Locations

set_option autoImplicit false

namespace Tessera

/-- The range of a rejected text does not end before it begins. -/
theorem Rejection.location_le_endLocation {r : Rejection} (h : r.start ≤ r.stop) :
    r.location ≤ r.endLocation :=
  lineColumn_mono r.content h

/-- **Locations are right and in order.**  For every text and every offset, also one past the end or
inside of a character: what is read up to the offset has line breaks from left to right, and the
location counts these breaks and the characters after the last of them.  A later offset has no earlier
location.  So whatever text is rejected, the reported range of it does not end before it begins. -/
theorem locations_in_order :
    (∀ (text : Text) (n : Nat), ∃ p bs last, ReadUpTo text n p ∧ Lined p bs last) ∧
      (∀ (text : Text) (n : Nat) (p : Text) (bs : List Text) (last : Text),
        ReadUpTo text n p → Lined p bs last →
          lineColumn text n = ⟨1 + bs.length, 1 + last.length⟩) ∧
      (∀ (text : Text) (m n : Nat), m ≤ n → lineColumn text m ≤ lineColumn text n) ∧
      (∀ (draft : Draft) (g : Grammar), draft.build = .ok g → ∀ d < g.size,
        ∀ (text : Text) (r : Rejection), (resolve g d text).result = .error (.rejected r) →
          r.content = text ∧ r.location ≤ r.endLocation) := by
  refine ⟨fun text n => ?_, fun text n p bs last hp h => hp.lineColumn_eq h,
    fun text m n h => lineColumn_mono text h, fun draft g hbuild d hd text r hr => ?_⟩
  · obtain ⟨bs, last, h⟩ := exists_lined (takeBytes n text)
    exact ⟨_, bs, last, readUpTo_takeBytes text n, h⟩
  · obtain ⟨s, hs, rfl⟩ := resolve_rejected hr
    have hlocated := Query.run_located (q := ⟨g, text, false⟩) (Draft.build_valid hbuild) hd
    rw [hs] at hlocated
    exact ⟨rfl, Rejection.location_le_endLocation (Query.report_isRange hlocated).le⟩

/-! ### Another letter on the second line -/

/-- A letter on the second line, in place of the one that is expected. -/
def secondLine : Text := ['\r', '\n', 'b']

/-- The whole text is rejected. -/
def secondLineRejection : Rejection := ⟨1, some "x", some ['a'], secondLine, 0, 3, .mismatch⟩

theorem resolve_secondLine :
    (resolve (fieldGrammar "x") 1 secondLine).result = .error (.rejected secondLineRejection) := by
  obtain ⟨s, hs, hfurthest⟩ :
      ∃ s, Query.parse ⟨fieldGrammar "x", secondLine, false⟩ 15 [] 1 0 3 .start =
        (.error .rejected, s) ∧
        s.furthest = ((SearchState.start.happen (.enter 1 0 3)).record ⟨1, 0, 3, .mismatch⟩).furthest :=
    Query.parse_rejected rfl Std.HashSet.contains_empty rfl rfl
  have hs : Query.run ⟨fieldGrammar "x", secondLine, false⟩ 1 = (.error .rejected, s) := hs
  have hfurthest : s.furthest = some ⟨1, 0, 3, .mismatch⟩ := hfurthest
  have hfeasible : (fieldGrammar "x").feasible 1 secondLine = false := by with_unfolding_all rfl
  rw [resolve, hfeasible, if_neg Bool.false_ne_true, resolveFully, hs]
  simp only [Query.report, hfurthest]
  rfl

/-- The carriage return before the cut and its line feed behind it are one line break, on both sides of
the cut; and the rejected text ends on the second line. -/
theorem locations_in_order_secondLine :
    ReadUpTo secondLine 1 ['\r'] ∧ Lined ['\r'] [['\r']] [] ∧ lineColumn secondLine 1 = ⟨2, 1⟩ ∧
      lineColumn secondLine 1 ≤ lineColumn secondLine 2 ∧
      (resolve (fieldGrammar "x") 1 secondLine).result = .error (.rejected secondLineRejection) ∧
      secondLineRejection.location ≤ secondLineRejection.endLocation ∧
      secondLineRejection.location = ⟨1, 1⟩ ∧ secondLineRejection.endLocation = ⟨2, 2⟩ := by
  have hread : ReadUpTo secondLine 1 ['\r'] := readUpTo_takeBytes secondLine 1
  have hlined : Lined ['\r'] [['\r']] [] :=
    .next breaks_nil (.carriageReturn (by decide)) (.last breaks_nil)
  obtain ⟨-, hcount, hmono, hrejected⟩ := locations_in_order
  exact ⟨hread, hlined, hcount _ _ _ _ _ hread hlined, hmono _ 1 2 (by decide), resolve_secondLine,
    (hrejected _ _ (fieldDraft_build "x") 1 (by decide) _ _ resolve_secondLine).2, by decide, by decide⟩

end Tessera
