/-
**Where a rejection is marked.**

Every failure that a search records lies over a range of the text, so the range that is reported lies
between characters.  The span that a drawing marks begins where this range begins and reaches at least
as far, inside of the content, and something is marked unless the failure lies at the very end.

A failure of an item for which nothing is left has an empty range, and inside of a part that ends early
it lies before the rest of the text.  The span of an empty range is one byte long.  Before a character
of several bytes it ends inside of that character, where no line can be cut.

Main definitions:

* `Tessera.StartsWide` — a character of several bytes begins at an offset;
* `Tessera.Rejection.Marked` — what holds of the marked span;
* `Tessera.Query.Located` — the failure that a search keeps lies over a range of the text.

Main results:

* `Tessera.Rejection.isBoundary_stop_iff` — **the marked span ends between characters unless the range
  is empty and lies before a character of several bytes**;
* `Tessera.Query.run_located` — every search keeps a failure over a range of the text;
* `Tessera.resolve_marked` — what is marked for a text that is rejected.
-/

import Tessera.Proofs.Search.Pruning
import Tessera.Proofs.Search.Termination
import Tessera.Rejection.Drawing

set_option autoImplicit false

namespace Tessera

/-! ### One byte further -/

/-- A character of several bytes begins at the offset. -/
def StartsWide (text : Text) (n : Nat) : Prop :=
  ∃ c rest, dropBytes n text = c :: rest ∧ 1 < c.utf8Size

/-- One byte after a boundary is a boundary when the character in between takes one byte. -/
theorem isBoundary_succ_iff {text : Text} {n : Nat} (h : IsBoundary text n)
    (hlt : n < byteLength text) : IsBoundary text (n + 1) ↔ ¬ StartsWide text n := by
  obtain ⟨xs, ys, rfl, rfl⟩ := isBoundary_iff.1 h
  cases ys with
  | nil => simp at hlt
  | cons c rest =>
      have hdrop : dropBytes (byteLength xs) (xs ++ c :: rest) = c :: rest :=
        dropBytes_append xs (c :: rest)
      have hpos := c.utf8Size_pos
      have hwide : StartsWide (xs ++ c :: rest) (byteLength xs) ↔ 1 < c.utf8Size := by
        rw [StartsWide, hdrop]
        constructor
        · rintro ⟨_, _, heq, hwide⟩
          obtain ⟨rfl, -⟩ := List.cons.inj heq
          exact hwide
        · exact fun hwide => ⟨c, rest, rfl, hwide⟩
      rw [hwide, IsBoundary, takeBytes_add, byteLength_append, Nat.add_left_cancel_iff, takeBytes]
      split
      · next hsize =>
        have hsize : c.utf8Size = 1 := by omega
        rw [hsize, Nat.sub_self, takeBytes_zero, byteLength_cons, byteLength_nil]
        omega
      · next hsize =>
        rw [byteLength_nil]
        omega

namespace Rejection

variable {r : Rejection}

/-! ### The marked span -/

/-- What holds of the marked span: it begins where the reported range begins, contains this range, lies
inside of the content and is not empty unless it lies at the end. -/
structure Marked (r : Rejection) : Prop where
  start : r.markedSpan.1 = r.start
  contains : r.stop ≤ r.markedSpan.2
  inside : r.markedSpan.2 ≤ byteLength r.content
  left : IsBoundary r.content r.markedSpan.1
  nonempty : r.markedSpan.1 < r.markedSpan.2 ∨ r.start = byteLength r.content

variable (h : IsRange r.content r.start r.stop)
include h

/-- A range that is not empty is marked as it is. -/
theorem markedSpan_of_lt (hlt : r.start < r.stop) : r.markedSpan = (r.start, r.stop) := by
  have := h.right.le
  rw [markedSpan, Nat.min_eq_left (by omega), Nat.min_eq_left (by omega), if_neg (by omega)]

/-- An empty range is marked with the byte that follows, if there is one. -/
theorem markedSpan_of_eq (heq : r.start = r.stop) :
    r.markedSpan = (r.start, min (r.start + 1) (byteLength r.content)) := by
  have := h.right.le
  rw [markedSpan, Nat.min_eq_left (by omega), Nat.min_eq_left (by omega), if_pos heq]

theorem marked : r.Marked := by
  have hright := h.right.le
  rcases Nat.eq_or_lt_of_le h.le with heq | hlt
  · have hspan := markedSpan_of_eq h heq
    constructor <;> simp only [hspan]
    · omega
    · omega
    · exact h.left
    · omega
  · have hspan := markedSpan_of_lt h hlt
    constructor <;> simp only [hspan]
    · exact Nat.le_refl _
    · exact hright
    · exact h.left
    · exact .inl hlt

/-- **The marked span ends between characters unless the range is empty and lies before a character of
several bytes.** -/
theorem isBoundary_stop_iff :
    IsBoundary r.content r.markedSpan.2 ↔ ¬ (r.start = r.stop ∧ StartsWide r.content r.start) := by
  have hright := h.right.le
  rcases Nat.eq_or_lt_of_le h.le with heq | hlt
  · rw [markedSpan_of_eq h heq, and_iff_right heq]
    rcases Nat.eq_or_lt_of_le (heq ▸ hright : r.start ≤ byteLength r.content) with hend | hlt
    · -- at the end nothing is marked
      have hnone : ¬ StartsWide r.content r.start := by
        rintro ⟨c, rest, hdrop, -⟩
        have hnil := dropBytes_append r.content []
        rw [List.append_nil, ← hend, hdrop] at hnil
        cases hnil
      rw [Nat.min_eq_right (by omega)]
      exact iff_of_true (isBoundary_byteLength _) hnone
    · rw [Nat.min_eq_left hlt]
      exact isBoundary_succ_iff h.left hlt
  · rw [markedSpan_of_lt h hlt]
    exact iff_of_true h.right fun hempty => by omega

end Rejection

/-! ### Failures of a search -/

namespace Query

variable {q : Query}

/-- The failure that the state keeps, if any, lies over a range of the text. -/
def Located (q : Query) (s : SearchState) : Prop :=
  ∀ f, s.furthest = some f → IsRange q.text f.start f.stop

theorem Located.record {s : SearchState} (h : q.Located s) {f : Failure}
    (hf : IsRange q.text f.start f.stop) : q.Located (s.record f) := by
  have hnew : q.Located { s with furthest := some f } := fun f' hf' => by
    rw [← Option.some.inj hf']
    exact hf
  rw [SearchState.record]
  split
  · exact hnew
  · split
    · exact hnew
    · exact h

/-- Every step of a search keeps a failure over a range of the text. -/
theorem guide_located (q : Query) : q.Guide (fun _ => q.Located) (fun _ => True) where
  rejected := trivial
  limited _ := trivial
  steady _ := ⟨fun _ _ hf h => h.record hf, fun _ _ _ h => h⟩
  refuse _ _ h := h
  giveUp _ _ _ h := h
  enter _ _ _ _ _ _ _ h := h
  accept _ _ _ _ _ _ h := h
  reject _ _ _ _ _ _ h := h

/-- **Every search of a text keeps a failure over a range of the text.** -/
theorem run_located (hg : q.grammar.Valid) {d : DefId} (hd : d < q.grammar.size) :
    q.Located (q.run d).2 := by
  have hguided : q.GuidesParts q.Located (fun _ => True)
      (q.parse (partCount q.grammar.size (byteLength q.text) + 1) []) :=
    parse_guided hg (guide_located q) List.nodup_nil (by simp) (by simp)
  exact (hguided d 0 _ hd (IsRange.whole q.text) _ fun f hf => by cases hf).1

/-- The reported range lies in the text. -/
theorem report_isRange {d : DefId} {s : SearchState} (h : q.Located s) :
    IsRange q.text (q.report d s).start (q.report d s).stop := by
  cases hf : s.furthest with
  | none =>
      simp only [report, hf, Option.getD_none]
      exact IsRange.whole q.text
  | some f =>
      simp only [report, hf, Option.getD_some]
      exact h f hf

end Query

/-! ### Rejected texts -/

/-- A rejection reports about the search that leaves out no candidate. -/
theorem resolve_rejected {g : Grammar} {d : DefId} {text : Text} {r : Rejection}
    (h : (resolve g d text).result = .error (.rejected r)) :
    ∃ s, Query.run ⟨g, text, false⟩ d = (.error .rejected, s) ∧
      r = Query.report ⟨g, text, false⟩ d s := by
  have hfully : ∀ before, (resolveFully g d text before).result = .error (.rejected r) →
      ∃ s, Query.run ⟨g, text, false⟩ d = (.error .rejected, s) ∧
        r = Query.report ⟨g, text, false⟩ d s := by
    intro before hr
    rw [resolveFully] at hr
    split at hr
    · cases hr
    · next s hs => exact ⟨s, hs, (SearchError.rejected.inj (Except.error.inj hr)).symm⟩
    · cases hr
  rw [resolve] at h
  split at h
  · split at h
    · cases h
    · exact hfully _ h
    · cases h
  · exact hfully _ h

/-- **What is marked for a text that is rejected.**  The reported range lies in the text, and the marked
span begins where it does, contains it, lies inside of the text and is not empty unless it lies at the
end.  It ends between characters unless the reported range is empty and lies before a character of
several bytes. -/
theorem resolve_marked {draft : Draft} {g : Grammar} (hbuild : draft.build = .ok g) {d : DefId}
    (hd : d < g.size) {text : Text} {r : Rejection}
    (h : (resolve g d text).result = .error (.rejected r)) :
    r.content = text ∧ IsRange text r.start r.stop ∧ r.Marked ∧
      (IsBoundary text r.markedSpan.2 ↔ ¬ (r.start = r.stop ∧ StartsWide text r.start)) := by
  have hg := Draft.build_valid hbuild
  obtain ⟨hcontent, hrange⟩ : r.content = text ∧ IsRange text r.start r.stop := by
    obtain ⟨s, hs, rfl⟩ := resolve_rejected h
    have hlocated := Query.run_located (q := ⟨g, text, false⟩) hg hd
    rw [hs] at hlocated
    exact ⟨rfl, Query.report_isRange hlocated⟩
  subst hcontent
  exact ⟨rfl, hrange, Rejection.marked hrange, Rejection.isBoundary_stop_iff hrange⟩

/-! ### A failure before a character of several bytes -/

namespace Query

variable {q : Query} {fuel : Nat} {active : List Part} {d : DefId} {start stop : Nat}
  {s s' : SearchState}

/-- A part that is neither given up nor entered is accepted when its rule is. -/
theorem parse_accepted (hlimit : q.grammar.limits.recursionLimit = none)
    (hfailed : s.failed.contains ⟨q.grammar.resolve d, start, stop⟩ = false)
    (hactive : active.contains ⟨q.grammar.resolve d, start, stop⟩ = false) {split : Split}
    (h : q.parseShape (q.parse fuel (⟨q.grammar.resolve d, start, stop⟩ :: active)) d start stop
      (s.happen (.enter d start stop)) = (.ok split, s')) :
    q.parse (fuel + 1) active d start stop s = (.ok split, s'.happen (.accept d start stop)) := by
  simp only [parse, hfailed, hactive, hlimit, Option.any_none, Bool.false_eq_true, if_false, h]

/-- A part that is neither given up nor entered is rejected when its rule is, with the same failure. -/
theorem parse_rejected (hlimit : q.grammar.limits.recursionLimit = none)
    (hfailed : s.failed.contains ⟨q.grammar.resolve d, start, stop⟩ = false)
    (hactive : active.contains ⟨q.grammar.resolve d, start, stop⟩ = false)
    (h : q.parseShape (q.parse fuel (⟨q.grammar.resolve d, start, stop⟩ :: active)) d start stop
      (s.happen (.enter d start stop)) = (.error .rejected, s')) :
    ∃ s'', q.parse (fuel + 1) active d start stop s = (.error .rejected, s'') ∧
      s''.furthest = s'.furthest := by
  simp only [parse, hfailed, hactive, hlimit, Option.any_none, Bool.false_eq_true, if_false, h]
  split <;> exact ⟨_, rfl, rfl⟩

end Query

/-- A letter, taken if it is there; the same followed by the letter; and this followed by one more. -/
def eagerRules : Array Rule :=
  #[.literal ['a'], .optional 0 .possessive, .sequence [1, 0], .sequence [2, 0]]

/-- The draft of the letters. -/
def eagerDraft : Draft := ⟨eagerRules.map some, .empty, {}, .standard⟩

/-- The grammar of the letters. -/
def eagerGrammar : Grammar where
  rules := eagerRules
  resolved := #[0, 1, 2, 3]
  names := .empty
  limits := {}
  engine := .standard
  acceptors := Acceptors.ofRules .standard eagerRules {} #[none, none, none, none]

theorem eagerDraft_build : eagerDraft.build = .ok eagerGrammar := by with_unfolding_all rfl

/-- The search that leaves out no candidate, over a letter and a character of three bytes. -/
def eagerQuery : Query := ⟨eagerGrammar, ['a', '漢'], false⟩

/-- The search inside of the whole text. -/
def atWhole : SearchState := SearchState.start.happen (.enter 3 0 4)

/-- The search inside of the first item. -/
def atPart : SearchState := atWhole.happen (.enter 2 0 1)

/-- The search inside of the letter that is taken if it is there. -/
def atOptional : SearchState := atPart.happen (.enter 1 0 1)

theorem parse_letter (fuel : Nat) :
    eagerQuery.parse (fuel + 1) [⟨1, 0, 1⟩, ⟨2, 0, 1⟩, ⟨3, 0, 4⟩] 0 0 1 atOptional =
      (.ok (.leaf ⟨0, 1⟩), (atOptional.happen (.enter 0 0 1)).happen (.accept 0 0 1)) :=
  Query.parse_accepted rfl Std.HashSet.contains_empty rfl rfl

theorem parse_optional (fuel : Nat) :
    eagerQuery.parse (fuel + 2) [⟨2, 0, 1⟩, ⟨3, 0, 4⟩] 1 0 1 atPart =
      (.ok (.present ⟨0, 1⟩ (.leaf ⟨0, 1⟩)),
        ((atOptional.happen (.enter 0 0 1)).happen (.accept 0 0 1)).happen (.accept 1 0 1)) := by
  refine Query.parse_accepted rfl Std.HashSet.contains_empty rfl ?_
  change (eagerQuery.parse (fuel + 1) [⟨1, 0, 1⟩, ⟨2, 0, 1⟩, ⟨3, 0, 4⟩] 0 0 1 >>=
    fun inner => pure (Split.present ⟨0, 1⟩ inner)) atOptional = _
  rw [Attempt.bind_apply, parse_letter]
  rfl

/-- The letter is taken, so nothing is left for the letter after it. -/
theorem parse_part (fuel : Nat) : ∃ s,
    eagerQuery.parse (fuel + 3) [⟨3, 0, 4⟩] 2 0 1 atWhole = (.error .rejected, s) ∧
      s.furthest = some ⟨0, 1, 1, .mismatch⟩ := by
  have hfollows := Query.sequenceFollows_unpruned (q := eagerQuery) rfl 2 2 0 1
  have hoptional : eagerQuery.ends 1 0 1 = [1] := by with_unfolding_all rfl
  have hletter : eagerQuery.ends 0 1 1 = [] := by with_unfolding_all rfl
  have hsequence : ∃ s, eagerQuery.sequence
      (eagerQuery.parse (fuel + 2) [⟨2, 0, 1⟩, ⟨3, 0, 4⟩]) 2 [1, 0] 0 1 atPart =
        (.error .rejected, s) ∧ s.furthest = some ⟨0, 1, 1, .mismatch⟩ := by
    simp only [Query.sequence, Query.sequenceFrom, Attempt.bind_apply, Attempt.inspect,
      Std.HashSet.contains_empty, hfollows, Query.filter_everywhere, hoptional, hletter,
      Attempt.firstOf, Attempt.orElse, Attempt.onFirst, parse_optional, List.isEmpty_cons,
      Bool.false_eq_true, if_false, List.isEmpty_nil, if_true, Search.fail, Search.note,
      Attempt.update, Attempt.reject, Attempt.stop, Search.emit, List.length_cons, List.length_nil]
    exact ⟨_, rfl, rfl⟩
  obtain ⟨s, hs, hfurthest⟩ := hsequence
  have hparse : ∃ s', eagerQuery.parse (fuel + 3) [⟨3, 0, 4⟩] 2 0 1 atWhole =
      (.error .rejected, s') ∧ s'.furthest = s.furthest :=
    Query.parse_rejected rfl Std.HashSet.contains_empty rfl hs
  rwa [hfurthest] at hparse

/-- The first item ends after the letter, and it is the only way to begin. -/
theorem run_eager : ∃ s, eagerQuery.run 3 = (.error .rejected, s) ∧
    s.furthest = some ⟨0, 1, 1, .mismatch⟩ := by
  obtain ⟨s, hs, hfurthest⟩ := parse_part 57
  have hfollows := Query.sequenceFollows_unpruned (q := eagerQuery) rfl 3 2 0 4
  have hpart : eagerQuery.ends 2 0 4 = [1] := by with_unfolding_all rfl
  have hsequence : ∃ s', eagerQuery.sequence (eagerQuery.parse 60 [⟨3, 0, 4⟩]) 3 [2, 0] 0 4
      atWhole = (.error .rejected, s') ∧ s'.furthest = s.furthest := by
    simp only [Query.sequence, Query.sequenceFrom, Attempt.bind_apply, Attempt.inspect,
      Std.HashSet.contains_empty, hfollows, Query.filter_everywhere, hpart, hs, Attempt.firstOf,
      Attempt.orElse, Attempt.onFirst, List.isEmpty_cons, Bool.false_eq_true, if_false,
      Attempt.update, Attempt.reject, Attempt.stop, Search.emit, List.length_cons, List.length_nil]
    exact ⟨_, rfl, rfl⟩
  obtain ⟨s', hs', hsame⟩ := hsequence
  have hparse : ∃ s'', eagerQuery.parse 61 [] 3 0 4 SearchState.start = (.error .rejected, s'') ∧
      s''.furthest = s'.furthest := Query.parse_rejected rfl Std.HashSet.contains_empty rfl hs'
  rwa [hsame, hfurthest] at hparse

/-- The letter that is missing is missing before the character of three bytes. -/
def eagerRejection : Rejection := ⟨0, none, some ['a'], ['a', '漢'], 1, 1, .mismatch⟩

theorem resolve_eager :
    (resolve eagerGrammar 3 ['a', '漢']).result = .error (.rejected eagerRejection) := by
  obtain ⟨s, hs, hfurthest⟩ := run_eager
  have hfeasible : eagerGrammar.feasible 3 ['a', '漢'] = false := by with_unfolding_all rfl
  have hs : Query.run ⟨eagerGrammar, ['a', '漢'], false⟩ 3 = (.error .rejected, s) := hs
  rw [resolve, hfeasible, if_neg Bool.false_ne_true, resolveFully, hs]
  simp only [Query.report, hfurthest]
  rfl

/-- The missing letter is marked where it is missing. -/
theorem resolve_marked_eager :
    eagerDraft.build = .ok eagerGrammar ∧ 3 < eagerGrammar.size ∧
      (resolve eagerGrammar 3 ['a', '漢']).result = .error (.rejected eagerRejection) ∧
      IsRange ['a', '漢'] 1 1 ∧ eagerRejection.Marked := by
  have hmarked := resolve_marked eagerDraft_build (d := 3) (by decide) resolve_eager
  exact ⟨eagerDraft_build, by decide, resolve_eager, hmarked.2.1, hmarked.2.2.1⟩

/-- The marked span may end inside of a character. -/
theorem resolve_eager_cut :
    eagerDraft.build = .ok eagerGrammar ∧
      (resolve eagerGrammar 3 ['a', '漢']).result = .error (.rejected eagerRejection) ∧
      eagerRejection.markedSpan = (1, 2) ∧ ¬ IsBoundary eagerRejection.content 2 :=
  ⟨eagerDraft_build, resolve_eager, by decide, by decide⟩

end Tessera
