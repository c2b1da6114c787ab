/-
**Cycles of definitions that create each other.**

A sequence needs its items, and an indirection what it stands for, because their nodes are created
together.  The check for cycles walks along these needs depth first.  A definition that is met again
while it is still being created closes a cycle, and the part of the path from there on is what is
reported; a definition that is met again later does no harm, however often it is needed.

Main definitions:

* `Tessera.Needs` — a definition is created together with another;
* `Tessera.NeedsItself` — some definition needs itself, perhaps through others;
* `Tessera.EagerCycle` — definitions of which each needs the next, and the last the first.

Main results:

* `Tessera.visitEager_cycle` — **what a walk reports is a cycle**;
* `Tessera.checkEagerCycles_error_iff` — **the check fails exactly when some definition needs itself**;
* `Tessera.checkEagerCycles_error_cycle` — and then it reports a cycle.
-/

import Tessera.Proofs.Grammar.Chains

set_option autoImplicit false

namespace Tessera

variable {rule : DefId → Rule} {size : Nat} {d e : DefId}

/-! ### Needs -/

/-- A node of the second definition is created together with every node of the first: the second is
an item of the first, which is a sequence, or the first merely stands for the second. -/
inductive Needs (rule : DefId → Rule) (d e : DefId) : Prop
  | item {items : List DefId} (hrule : rule d = .sequence items) (he : e ∈ items)
  | target (h : StandsFor rule d e)

theorem Rule.mem_eager {r : Rule} :
    e ∈ r.eager ↔ (∃ items, r = .sequence items ∧ e ∈ items) ∨ r.target? = some e := by
  cases r <;> simp [Rule.eager, Rule.target?, eq_comm]

theorem needs_iff : Needs rule d e ↔ e ∈ (rule d).eager := by
  rw [Rule.mem_eager]
  constructor
  · rintro (⟨hrule, he⟩ | h)
    · exact .inl ⟨_, hrule, he⟩
    · exact .inr h
  · rintro (⟨items, hrule, he⟩ | h)
    · exact .item hrule he
    · exact .target h

/-- Some definition needs itself, at once or through others. -/
def NeedsItself (rule : DefId → Rule) : Prop := ∃ d, Relation.TransGen (Needs rule) d d

/-- Different definitions in a row, at least one: each needs the next, and the last the first. -/
structure EagerCycle (rule : DefId → Rule) (cycle : List DefId) : Prop where
  nonempty : cycle ≠ []
  distinct : cycle.Nodup
  linked : cycle.IsChain (Needs rule)
  closed : ∀ first last, cycle.head? = some first → cycle.getLast? = some last →
    Needs rule last first

/-- From the first definition of a row all others are needed. -/
theorem needs_of_isChain {first last : DefId} {ds : List DefId}
    (h : (first :: ds).IsChain (Needs rule)) (hlast : (first :: ds).getLast? = some last) :
    Relation.ReflTransGen (Needs rule) first last := by
  induction ds generalizing first with
  | nil =>
      obtain rfl : first = last := Option.some.inj hlast
      exact .refl
  | cons d ds ih =>
      obtain ⟨hfirst, hrest⟩ := List.isChain_cons_cons.1 h
      exact .head hfirst (ih hrest (by simpa [List.getLast?_cons] using hlast))

/-- The definitions of a cycle need themselves. -/
theorem EagerCycle.needsItself {cycle : List DefId} (h : EagerCycle rule cycle) :
    NeedsItself rule := by
  obtain ⟨hnonempty, -, hlinked, hclosed⟩ := h
  obtain ⟨first, ds, rfl⟩ := List.exists_cons_of_ne_nil hnonempty
  have hlast := List.getLast?_eq_some_getLast (List.cons_ne_nil first ds)
  exact ⟨first, .tail' (needs_of_isChain hlinked hlast) (hclosed first _ rfl hlast)⟩

section Ranks

variable {rank : DefId → Nat} (hrank : ∀ d e, Needs rule d e → rank e < rank d)
include hrank

/-- Ranks that fall along single needs fall along needs through others. -/
theorem rank_lt_of_needs (h : Relation.TransGen (Needs rule) d e) : rank e < rank d := by
  induction h with
  | single hneeds => exact hrank _ _ hneeds
  | tail _ hneeds ih => exact Nat.lt_trans (hrank _ _ hneeds) ih

/-- Definitions with ranks that fall along their needs do not need themselves. -/
theorem not_needsItself_of_rank : ¬ NeedsItself rule := by
  rintro ⟨d, hd⟩
  exact Nat.lt_irrefl _ (rank_lt_of_needs hrank hd)

end Ranks

/-! ### What a walk reports -/

/-- A fold fails in one of its steps. -/
theorem foldlM_eq_error {ε α β : Type} {f : β → α → Except ε β} {as : List α} {b : β} {fault : ε}
    (h : as.foldlM f b = .error fault) : ∃ a ∈ as, ∃ b', f b' a = .error fault := by
  induction as generalizing b with
  | nil => simp [pure, Except.pure] at h
  | cons a as ih =>
      rw [List.foldlM_cons] at h
      cases hfirst : f b a with
      | error fault' =>
          rw [hfirst] at h
          obtain rfl : fault' = fault := Except.error.inj h
          exact ⟨a, List.mem_cons_self, b, hfirst⟩
      | ok b' =>
          rw [hfirst] at h
          obtain ⟨x, hx, hfault⟩ := ih h
          exact ⟨x, List.mem_cons_of_mem a hx, hfault⟩

/-- A path, the innermost definition first: every definition is needed by the one after it. -/
structure EagerPath (rule : DefId → Rule) (path : List DefId) : Prop where
  distinct : path.Nodup
  linked : path.IsChain fun inner outer => Needs rule outer inner

theorem EagerPath.cons {path : List DefId} (h : EagerPath rule (d :: path)) (hneeds : Needs rule d e)
    (hnew : e ∉ d :: path) : EagerPath rule (e :: d :: path) :=
  ⟨List.nodup_cons.2 ⟨hnew, h.distinct⟩, List.isChain_cons_cons.2 ⟨hneeds, h.linked⟩⟩

/-- A list up to a member of it. -/
theorem eq_takeWhile_append {ds : List DefId} (h : e ∈ ds) :
    ∃ outer, ds = ds.takeWhile (· != e) ++ e :: outer := by
  have hall := List.takeWhile_append_dropWhile (p := (· != e)) (l := ds)
  cases hdrop : ds.dropWhile (· != e) with
  | nil =>
      have := List.dropWhile_eq_nil_iff.1 hdrop e h
      simp at this
  | cons x outer =>
      have hx := List.head?_dropWhile_not (· != e) ds
      rw [hdrop] at hx
      obtain rfl : x = e := by simpa using hx
      rw [hdrop] at hall
      exact ⟨outer, hall.symm⟩

/-- When the innermost definition of a path needs one of the path, the path from there on, read from
the outside to the inside, is a cycle. -/
theorem EagerPath.eagerCycle {path : List DefId} (h : EagerPath rule (d :: path))
    (hneeds : Needs rule d e) (hmem : e ∈ d :: path) :
    EagerCycle rule (e :: ((d :: path).takeWhile (· != e)).reverse) := by
  obtain ⟨outer, hpath⟩ := eq_takeWhile_append hmem
  generalize (d :: path).takeWhile (· != e) = inner at hpath
  have hsplit : d :: path = (inner ++ [e]) ++ outer := by simp [hpath]
  have hcycle : e :: inner.reverse = (inner ++ [e]).reverse := by simp
  rw [hcycle]
  have hdistinct := h.distinct
  have hlinked := h.linked
  rw [hsplit] at hdistinct hlinked
  refine ⟨by simp, ?_, ?_, fun first last hfirst hlast => ?_⟩
  · exact List.nodup_reverse.2 hdistinct.of_append_left
  · exact List.isChain_reverse.2 hlinked.left_of_append
  · obtain rfl : e = first := by simpa using hfirst
    have hhead : (inner ++ [e]).head? = some d := by
      cases inner with
      | nil => exact congrArg some (List.cons.inj hsplit).1.symm
      | cons x inner => exact congrArg some (List.cons.inj hsplit).1.symm
    rw [List.getLast?_reverse, hhead] at hlast
    rwa [← Option.some.inj hlast]

/-- **What a walk reports is a cycle.** -/
theorem visitEager_cycle {fuel : Nat} {path done cycle : List DefId}
    (hpath : EagerPath rule (d :: path)) (h : visitEager rule fuel path done d = .error cycle) :
    EagerCycle rule cycle := by
  induction fuel generalizing path done d with
  | zero => simp [visitEager] at h
  | succ fuel ih =>
      rw [visitEager] at h
      cases hfold : (rule d).eager.foldlM (fun done e =>
          if (d :: path).contains e then
            .error (e :: ((d :: path).takeWhile (· != e)).reverse)
          else if done.contains e then .ok done
          else visitEager rule fuel (d :: path) done e) done with
      | ok done' =>
          simp only [hfold] at h
          cases h
      | error cycle' =>
          simp only [hfold] at h
          obtain rfl : cycle' = cycle := Except.error.inj h
          obtain ⟨e, he, done', hstep⟩ := foldlM_eq_error hfold
          split at hstep
          · next hmem =>
            rw [← Except.error.inj hstep]
            exact hpath.eagerCycle (needs_iff.2 he) (by simpa using hmem)
          · next hnew =>
            split at hstep
            · cases hstep
            · exact ih (hpath.cons (needs_iff.2 he) (by simpa using hnew)) hstep

/-! ### The check for cycles -/

section Table

variable {rules : Array Rule}

/-- **A reported cycle is one.** -/
theorem checkEagerCycles_error_cycle {fault : GrammarError}
    (h : checkEagerCycles rules = .error fault) :
    ∃ cycle, fault = .infiniteRecursion cycle ∧ EagerCycle (ruleOf rules) cycle := by
  simp only [checkEagerCycles] at h
  split at h
  · cases h
  · next cycle hwalk =>
    refine ⟨cycle, (Except.error.inj h).symm, ?_⟩
    obtain ⟨d, -, done, hstep⟩ := foldlM_eq_error hwalk
    split at hstep
    · cases hstep
    · exact visitEager_cycle ⟨List.nodup_singleton d, List.isChain_singleton d⟩ hstep

variable (hclosed : Closed (ruleOf rules) rules.size)
include hclosed

/-- A table that passes has ranks that fall along the needs. -/
theorem exists_rank_of_checkEagerCycles (h : checkEagerCycles rules = .ok ()) :
    ∃ rank : DefId → Nat, ∀ d e, Needs (ruleOf rules) d e → rank e < rank d := by
  obtain ⟨done, hlayered, -, hmem⟩ :=
    layered_of_checkEagerCycles (fun d e he => hclosed d e (Rule.eager_subset he)) h
  refine ⟨rankIn done, fun d e he => ?_⟩
  by_cases hd : d < rules.size
  · exact hlayered.rankIn_lt (hmem d hd) (needs_iff.1 he)
  · have hout : ruleOf rules d = .empty := by rw [ruleOf, Array.getD, dif_neg hd]
    rw [needs_iff, hout] at he
    simp [Rule.eager] at he

/-- **The check for cycles fails exactly when some definition needs itself.** -/
theorem checkEagerCycles_error_iff :
    (∃ fault, checkEagerCycles rules = .error fault) ↔ NeedsItself (ruleOf rules) := by
  constructor
  · rintro ⟨fault, h⟩
    obtain ⟨cycle, -, hcycle⟩ := checkEagerCycles_error_cycle h
    exact hcycle.needsItself
  · intro hself
    cases h : checkEagerCycles rules with
    | error fault => exact ⟨fault, rfl⟩
    | ok _ =>
        obtain ⟨rank, hrank⟩ := exists_rank_of_checkEagerCycles hclosed h
        exact absurd hself (not_needsItself_of_rank hrank)

end Table

end Tessera
