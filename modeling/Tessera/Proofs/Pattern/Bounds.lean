/-
**The bounds of repetitions.**

A repetition that can be read has a lower bound that does not exceed the upper one.  This holds for
every repetition of a pattern, however deep, and for the expression that the pattern denotes.

Main definitions:

* `Tessera.Pattern.Ast.Bounded` — all bounds of a pattern are in order.

Main results:

* `Tessera.Pattern.Reading.step_bounded` — what is read keeps the bounds in order;
* `Tessera.Pattern.Regex.bounded_of_ofText?` — **the bounds of an expression are in order**.
-/

import Tessera.Proofs.Pattern.Groups
import Tessera.Proofs.Pattern.Languages

set_option autoImplicit false

namespace Tessera.Pattern

/-! ### Patterns with bounds in order -/

/-- The lower bound does not exceed the upper one. -/
def InOrder (min : Nat) (max : Option Nat) : Prop := ∀ m, max = some m → min ≤ m

mutual

/-- All bounds of the pattern are in order. -/
def Ast.Bounded : Ast → Prop
  | .repetition body min max => body.Bounded ∧ InOrder min max
  | .group _ body => body.Bounded
  | .concat items => Ast.AllBounded items
  | .alternation branches => Ast.AllBounded branches
  | _ => True

/-- All bounds of the patterns are in order. -/
def Ast.AllBounded : List Ast → Prop
  | [] => True
  | a :: as => a.Bounded ∧ Ast.AllBounded as

end

theorem Ast.allBounded_iff {as : List Ast} : Ast.AllBounded as ↔ ∀ a ∈ as, a.Bounded := by
  induction as with
  | nil => simp [Ast.AllBounded]
  | cons a as ih => rw [Ast.AllBounded, ih, List.forall_mem_cons]

theorem Ast.ofItems_bounded {as : List Ast} (h : ∀ a ∈ as, a.Bounded) :
    (Ast.ofItems as).Bounded := by
  unfold Ast.ofItems
  split
  · simp [Ast.Bounded]
  · exact h _ List.mem_cons_self
  · rw [Ast.Bounded]
    exact Ast.allBounded_iff.2 h

/-! ### Reading -/

/-- All bounds that were read at a level are in order. -/
structure Level.Bounded (l : Level) : Prop where
  branches : ∀ a ∈ l.branches, a.Bounded
  items : ∀ a ∈ l.items, a.Bounded

namespace Level

variable {l l' : Level}

theorem start_bounded (verbose : Bool) : (Level.start verbose).Bounded :=
  ⟨by simp [start], by simp [start]⟩

theorem Bounded.push (h : l.Bounded) {a : Ast} (ha : a.Bounded) : (l.push a).Bounded :=
  ⟨h.branches, List.forall_mem_cons.2 ⟨ha, h.items⟩⟩

theorem Bounded.branch (h : l.Bounded) : l.branch.Bounded :=
  ⟨List.forall_mem_cons.2 ⟨Ast.ofItems_bounded (by simpa using h.items), h.branches⟩,
    by simp [Level.branch]⟩

theorem Bounded.tree (h : l.Bounded) : l.tree.Bounded := by
  unfold Level.tree
  split
  · exact Ast.ofItems_bounded (by simpa using h.items)
  · rw [Ast.Bounded]
    exact Ast.allBounded_iff.2 (by simpa using h.branch.branches)

theorem Bounded.repeatLast (h : l.Bounded) {min : Nat} {max : Option Nat} (hle : InOrder min max)
    (hl : l.repeatLast min max = some l') : l'.Bounded := by
  unfold Level.repeatLast at hl
  split at hl
  · simp at hl
  · simp at hl
  · simp at hl
  · next a items _ _ hitems =>
    cases hl
    obtain ⟨ha, hall⟩ := List.forall_mem_cons.1 (hitems ▸ h.items)
    refine ⟨h.branches, List.forall_mem_cons.2 ⟨?_, hall⟩⟩
    rw [Ast.Bounded]
    exact ⟨ha, hle⟩

end Level

theorem closeCount_inOrder {verbose : Bool} {bounds : Nat × Option Nat} {t rest : List Char}
    {min : Nat} {max : Option Nat} (h : closeCount verbose bounds t = some ((min, max), rest)) :
    InOrder min max := by
  unfold closeCount at h
  split at h
  · obtain ⟨checked, hcheck, heq⟩ := Option.map_eq_some_iff.1 h
    cases heq
    unfold checkBounds at hcheck
    rw [Option.ite_none_right_eq_some] at hcheck
    obtain ⟨hall, heq⟩ := hcheck
    cases heq
    rintro m rfl
    simpa using hall
  · simp at h

theorem readCount_inOrder {verbose : Bool} {t rest : List Char} {min : Nat} {max : Option Nat}
    (h : readCount verbose t = some ((min, max), rest)) : InOrder min max := by
  unfold readCount at h
  split at h
  · simp at h
  split at h
  · simp at h
  unfold readUpper at h
  split at h
  · split at h
    · exact closeCount_inOrder h
    · split at h
      · simp at h
      · exact closeCount_inOrder h
  · exact closeCount_inOrder h

/-- All bounds that were read so far are in order. -/
structure Reading.Bounded (r : Reading) : Prop where
  level : r.level.Bounded
  stack : ∀ g ∈ r.stack, g.outer.Bounded

theorem Reading.openGroup_bounded {r r' : Reading} (h : r.Bounded) {cs rest : List Char}
    (hopen : r.openGroup cs = some (r', rest)) : r'.Bounded := by
  unfold Reading.openGroup at hopen
  split at hopen
  · simp at hopen
  · next items inner _ =>
    cases hopen
    have hl : (r.level.push (.flags items)).Bounded := h.level.push (by simp [Ast.Bounded])
    exact ⟨⟨hl.branches, hl.items⟩, h.stack⟩
  · rw [Option.ite_none_left_eq_some] at hopen
    obtain ⟨-, hopen⟩ := hopen
    cases hopen
    exact ⟨Level.start_bounded _, List.forall_mem_cons.2 ⟨h.level, h.stack⟩⟩

theorem Reading.closeGroup_bounded {r r' : Reading} (h : r.Bounded)
    (hclose : r.closeGroup = some r') : r'.Bounded := by
  unfold Reading.closeGroup at hclose
  split at hclose
  · simp at hclose
  · next g stack hstack =>
    cases hclose
    obtain ⟨hg, hall⟩ := List.forall_mem_cons.1 (hstack ▸ h.stack)
    have htree : Ast.Bounded (.group g.flags r.level.tree) := by
      rw [Ast.Bounded]
      exact h.level.tree
    exact ⟨hg.push htree, hall⟩

/-- **What is read keeps the bounds in order.** -/
theorem Reading.step_bounded {r r' : Reading} (h : r.Bounded) {c : Char} {cs rest : List Char}
    (hstep : r.step c cs = some (r', rest)) : r'.Bounded := by
  have hrepeat {min : Nat} {max : Option Nat} (hle : InOrder min max) {skip : List Char}
      (hmap : ((r.level.repeatLast min max).map fun l => (r.withLevel l, skip)) = some (r', rest)) :
      r'.Bounded := by
    obtain ⟨l, hl, heq⟩ := Option.map_eq_some_iff.1 hmap
    cases heq
    exact ⟨h.level.repeatLast hle hl, h.stack⟩
  have hpush {a : Ast} (ha : a.Bounded) {skip : List Char}
      (hl : some (r.withLevel (r.level.push a), skip) = some (r', rest)) : r'.Bounded := by
    cases hl
    exact ⟨h.level.push ha, h.stack⟩
  unfold Reading.step at hstep
  split at hstep
  · exact openGroup_bounded h hstep
  · obtain ⟨q, hclose, heq⟩ := Option.map_eq_some_iff.1 hstep
    cases heq
    exact closeGroup_bounded h hclose
  · cases hstep
    exact ⟨h.level.branch, h.stack⟩
  · split at hstep
    · simp at hstep
    · exact hpush (by simp [Ast.Bounded]) hstep
  · exact hrepeat (by simp [InOrder]) hstep
  · exact hrepeat (by simp [InOrder]) hstep
  · exact hrepeat (by simp [InOrder]) hstep
  · split at hstep
    · simp at hstep
    · next hcount => exact hrepeat (readCount_inOrder hcount) hstep
  · split at hstep
    · simp at hstep
    · next p _ _ => exact hpush (by cases p <;> simp [Primitive.toAst, Ast.Bounded]) hstep
  all_goals exact hpush (by simp [Ast.Bounded]) hstep

theorem Runs.bounded {r : Reading} (h : r.Bounded) {t : List Char} {a : Ast} (hrun : Runs r t a) :
    a.Bounded := by
  obtain ⟨n, hrun⟩ := hrun
  induction n generalizing r t with
  | zero => simp [Reading.run] at hrun
  | succ n ih =>
      simp only [Reading.run] at hrun
      split at hrun
      · unfold Reading.finish at hrun
        split at hrun
        · cases hrun
          exact h.level.tree
        · simp at hrun
      · split at hrun
        · simp at hrun
        · next hstep => exact ih (Reading.step_bounded h hstep) hrun

/-! ### Expressions -/

namespace Regex

variable {r : Regex} {rs : List Regex}

theorem simplest_bounded (hr : r.Bounded) {min : Nat} {max : Option Nat} (h : InOrder min max) :
    (r.simplest min max).Bounded := by
  unfold simplest
  split
  · trivial
  · exact hr
  · exact ⟨hr, h⟩

theorem repetition_bounded (hr : r.Bounded) {min : Nat} {max : Option Nat} (h : InOrder min max) :
    (r.repetition min max).Bounded := by
  rw [repetition_eq]
  split
  · refine simplest_bounded hr ?_
    rintro m heq
    cases max with
    | none =>
        cases heq
        exact Nat.min_le_right min 1
    | some max =>
        cases heq
        have hle : min ≤ max := h max rfl
        exact Nat.le_min.2 ⟨Nat.le_trans (Nat.min_le_left min 1) hle, Nat.min_le_right min 1⟩
  · exact simplest_bounded hr h

theorem seqs_bounded (h : ∀ r ∈ rs, r.Bounded) : (seqs rs).Bounded := by
  induction rs with
  | nil => trivial
  | cons r rs ih =>
      obtain ⟨hr, hrs⟩ := List.forall_mem_cons.1 h
      cases rs with
      | nil => exact hr
      | cons r' rs => exact ⟨hr, ih hrs⟩

theorem alts_bounded (h : ∀ r ∈ rs, r.Bounded) : (alts rs).Bounded := by
  induction rs with
  | nil => trivial
  | cons r rs ih =>
      obtain ⟨hr, hrs⟩ := List.forall_mem_cons.1 h
      cases rs with
      | nil => exact hr
      | cons r' rs => exact ⟨hr, ih hrs⟩

end Regex

mutual

theorem Ast.regex?_bounded {a : Ast} (h : a.Bounded) {m m' : Mode} {r : Regex}
    (hr : a.regex? m = some (r, m')) : r.Bounded := by
  cases a with
  | repetition body min max =>
      simp only [Ast.regex?, Option.bind_eq_bind, Option.bind_eq_some_iff] at hr
      obtain ⟨⟨r', m₁⟩, hbody, heq⟩ := hr
      cases heq
      rw [Ast.Bounded] at h
      exact Regex.repetition_bounded (Ast.regex?_bounded h.1 hbody) h.2
  | group items body =>
      simp only [Ast.regex?, Option.bind_eq_bind, Option.bind_eq_some_iff] at hr
      obtain ⟨⟨r', m₁⟩, hbody, heq⟩ := hr
      cases heq
      rw [Ast.Bounded] at h
      exact Ast.regex?_bounded h hbody
  | concat items =>
      simp only [Ast.regex?, Option.bind_eq_bind, Option.bind_eq_some_iff] at hr
      obtain ⟨⟨rs, m₁⟩, hitems, heq⟩ := hr
      cases heq
      rw [Ast.Bounded] at h
      exact Regex.seqs_bounded (Ast.regexList?_bounded h hitems)
  | alternation branches =>
      simp only [Ast.regex?, Option.bind_eq_bind, Option.bind_eq_some_iff] at hr
      obtain ⟨⟨rs, m₁⟩, hbranches, heq⟩ := hr
      cases heq
      rw [Ast.Bounded] at h
      exact Regex.alts_bounded (Ast.regexList?_bounded h hbranches)
  | empty =>
      cases hr
      trivial
  | flags items =>
      cases hr
      trivial
  | anchor a =>
      cases hr
      trivial
  | bracketed negated body =>
      simp only [Ast.regex?, Option.bind_eq_bind, Option.bind_eq_some_iff] at hr
      obtain ⟨members, -, s, -, heq⟩ := hr
      cases heq
      trivial
  | _ =>
      simp only [Ast.regex?, Option.bind_eq_bind, Option.bind_eq_some_iff,
        Option.map_eq_some_iff] at hr
      obtain ⟨s, hs, heq⟩ := hr
      cases heq
      trivial

theorem Ast.regexList?_bounded {as : List Ast} (h : Ast.AllBounded as) {m m' : Mode}
    {rs : List Regex} (hrs : Ast.regexList? m as = some (rs, m')) : ∀ r ∈ rs, r.Bounded := by
  cases as with
  | nil =>
      cases hrs
      simp
  | cons a as =>
      simp only [Ast.regexList?, Option.bind_eq_bind, Option.bind_eq_some_iff] at hrs
      obtain ⟨⟨r, m₁⟩, hr, ⟨rs', m₂⟩, hrs', heq⟩ := hrs
      cases heq
      exact List.forall_mem_cons.2
        ⟨Ast.regex?_bounded h.1 hr, Ast.regexList?_bounded h.2 hrs'⟩

end

theorem Regex.bounded_of_ofText? {t : List Char} {r : Regex} (h : Regex.ofText? t = some r) :
    r.Bounded := by
  simp only [Regex.ofText?, Option.bind_eq_bind, Option.bind_eq_some_iff] at h
  obtain ⟨a, hparse, ⟨r', m⟩, hr, heq⟩ := h
  cases heq
  exact Ast.regex?_bounded
    ((runs_of_parse? hparse).bounded ⟨Level.start_bounded false, by simp⟩) hr

end Tessera.Pattern
