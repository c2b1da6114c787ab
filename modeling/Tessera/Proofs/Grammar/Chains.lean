/-
**Where chains of indirections end.**

An alias, a bound reference and a rule with a default content only stand for another definition.  The
check for chains follows them from every definition of the table, one step more often than there are
definitions, and reports the first definition from which no end is found.  A chain that ends visits no
definition twice, so this many steps are enough: a chain is reported exactly when it never reaches a
rule of another kind.

Main definitions:

* `Tessera.StandsFor`, `Tessera.LeadsTo` — one step and several steps along a chain;
* `Tessera.Endless` — the chain of a definition never reaches a rule of another kind;
* `Tessera.ChainWalk` — the definitions along a chain that ends.

Main results:

* `Tessera.chainEnd?_eq_none_iff` — **no end is found exactly when there is none**;
* `Tessera.resolveChains_error_iff`, `resolveChains_error_first` — when the check for chains fails,
  and with which definition;
* `Tessera.resolveChains_leads` — what it finds otherwise;
* `Tessera.chainWalk_of_leads` — the chain of a definition is walked to its end.
-/

import Mathlib.Logic.Relation
import Tessera.Proofs.Grammar.Eager
import Tessera.Proofs.Search.Defaults

set_option autoImplicit false

namespace Tessera

variable {rule : DefId → Rule} {size : Nat} {d e : DefId}

/-! ### Steps along a chain -/

/-- A definition merely stands for another one. -/
def StandsFor (rule : DefId → Rule) (d e : DefId) : Prop := (rule d).target? = some e

/-- The second definition is reached from the first along indirections. -/
def LeadsTo (rule : DefId → Rule) : DefId → DefId → Prop := Relation.ReflTransGen (StandsFor rule)

/-- The chain of a definition never reaches a rule of another kind. -/
def Endless (rule : DefId → Rule) (d : DefId) : Prop :=
  ∀ e, LeadsTo rule d e → (rule e).isIndirect = true

theorem isIndirect_iff {r : Rule} : r.isIndirect = true ↔ ∃ e, r.target? = some e :=
  Option.isSome_iff_exists

/-- The end of a chain is reached from its beginning. -/
theorem leads_of_chainEnd? {fuel : Nat} (h : chainEnd? rule fuel d = some e) : LeadsTo rule d e := by
  induction fuel generalizing d with
  | zero => simp [chainEnd?] at h
  | succ fuel ih =>
      rw [chainEnd?] at h
      cases htarget : (rule d).target? with
      | none =>
          rw [htarget] at h
          rw [← Option.some.inj h]
          exact .refl
      | some target =>
          rw [htarget] at h
          exact .head htarget (ih h)

theorem chainEnd?_mono {fuel fuel' : Nat} (h : chainEnd? rule fuel d = some e) (hle : fuel ≤ fuel') :
    chainEnd? rule fuel' d = some e := by
  induction hle with
  | refl => exact h
  | step _ ih => exact chainEnd?_succ ih

/-- What is reached and stands for nothing else is the end of the chain. -/
theorem chainEnd?_of_leads (h : LeadsTo rule d e) (hend : (rule e).target? = none) :
    ∃ fuel, chainEnd? rule fuel d = some e := by
  induction h using Relation.ReflTransGen.head_induction_on with
  | refl => exact ⟨1, by simp [chainEnd?, hend]⟩
  | head hstep _ ih =>
      obtain ⟨fuel, hfuel⟩ := ih
      have hstep : (rule _).target? = some _ := hstep
      exact ⟨fuel + 1, by rw [chainEnd?, hstep]; exact hfuel⟩

/-- An end is found with enough fuel unless the chain is endless. -/
theorem not_endless_iff : ¬ Endless rule d ↔ ∃ fuel e, chainEnd? rule fuel d = some e := by
  constructor
  · intro h
    obtain ⟨e, hlead, hend⟩ : ∃ e, LeadsTo rule d e ∧ ¬ (rule e).isIndirect = true := by
      simpa [Endless] using h
    have hnone : (rule e).target? = none := by simpa [Rule.isIndirect] using hend
    obtain ⟨fuel, hfuel⟩ := chainEnd?_of_leads hlead hnone
    exact ⟨fuel, e, hfuel⟩
  · rintro ⟨fuel, e, h⟩ hendless
    obtain ⟨target, htarget⟩ := isIndirect_iff.1 (hendless e (leads_of_chainEnd? h))
    rw [target?_chainEnd? h] at htarget
    cases htarget

/-! ### How long a chain is -/

theorem mem_chainFrom_leads {fuel : Nat} {x : DefId} (hx : x ∈ Grammar.chainFrom rule fuel d) :
    LeadsTo rule d x := by
  induction fuel generalizing d with
  | zero =>
      rw [List.mem_singleton.1 hx]
      exact .refl
  | succ fuel ih =>
      rw [Grammar.chainFrom] at hx
      split at hx
      · next target htarget =>
        rcases List.mem_cons.1 hx with rfl | hx
        · exact .refl
        · exact .head htarget (ih hx)
      · rw [List.mem_singleton.1 hx]
        exact .refl

/-- From every definition of a chain its end is found, with as much fuel as from the first. -/
theorem chainEnd?_of_mem {fuel : Nat} (h : chainEnd? rule (fuel + 1) d = some e) {x : DefId}
    (hx : x ∈ Grammar.chainFrom rule fuel d) : chainEnd? rule (fuel + 1) x = some e := by
  induction fuel generalizing d with
  | zero => rwa [List.mem_singleton.1 hx]
  | succ fuel ih =>
      have hfirst := h
      rw [chainEnd?] at h
      rw [Grammar.chainFrom] at hx
      cases htarget : (rule d).target? with
      | none =>
          rw [htarget] at hx
          rwa [List.mem_singleton.1 hx]
      | some target =>
          rw [htarget] at h hx
          rcases List.mem_cons.1 hx with rfl | hx
          · exact hfirst
          · exact chainEnd?_succ (ih h hx)

/-- When no step can be spared, the chain has as many definitions as there are steps, all of them
different: the first is not found from the second on, for there less fuel suffices. -/
theorem nodup_of_tight {fuel : Nat} (h : chainEnd? rule (fuel + 1) d = some e)
    (htight : chainEnd? rule fuel d = none) :
    (Grammar.chainFrom rule fuel d).Nodup ∧ (Grammar.chainFrom rule fuel d).length = fuel + 1 := by
  induction fuel generalizing d with
  | zero => exact ⟨List.nodup_singleton d, rfl⟩
  | succ fuel ih =>
      have hless := htight
      rw [chainEnd?] at h htight
      rw [Grammar.chainFrom]
      cases htarget : (rule d).target? with
      | none =>
          rw [htarget] at htight
          cases htight
      | some target =>
          rw [htarget] at h htight
          obtain ⟨hnodup, hlength⟩ := ih h htight
          have hnew : d ∉ Grammar.chainFrom rule fuel target := by
            intro hd
            rw [chainEnd?_of_mem h hd] at hless
            cases hless
          exact ⟨List.nodup_cons.2 ⟨hnew, hnodup⟩, by rw [List.length_cons, hlength]⟩

/-- A chain that ends ends after some number of steps, none of which can be spared. -/
theorem exists_tight {fuel : Nat} (h : chainEnd? rule fuel d = some e) :
    ∃ n, chainEnd? rule (n + 1) d = some e ∧ chainEnd? rule n d = none := by
  induction fuel with
  | zero => simp [chainEnd?] at h
  | succ fuel ih =>
      cases hless : chainEnd? rule fuel d with
      | none => exact ⟨fuel, h, hless⟩
      | some e' =>
          obtain rfl : e' = e := Option.some.inj ((chainEnd?_succ hless).symm.trans h)
          exact ih hless

/-- Nothing but itself is reached from what stands for nothing else. -/
theorem LeadsTo.eq_of_structural (h : LeadsTo rule d e) (hend : (rule d).target? = none) : e = d := by
  rcases Relation.ReflTransGen.cases_head h with rfl | ⟨x, hstep, -⟩
  · rfl
  · rw [StandsFor, hend] at hstep
    cases hstep

/-- All definitions that a rule mentions are in the table. -/
def Closed (rule : DefId → Rule) (size : Nat) : Prop := ∀ d, ∀ e ∈ (rule d).references, e < size

theorem closed_ruleOf {rules : Array Rule}
    (h : ∀ r ∈ rules.toList, ∀ e ∈ r.references, e < size) : Closed (ruleOf rules) size := by
  intro d e he
  by_cases hd : d < rules.size
  · have hmem : ruleOf rules d ∈ rules.toList := by simp [ruleOf, Array.getD, hd]
    exact h _ hmem e he
  · have hempty : ruleOf rules d = .empty := dif_neg hd
    rw [hempty] at he
    simp [Rule.references] at he

theorem LeadsTo.lt (hclosed : Closed rule size) (h : LeadsTo rule d e) (hd : d < size) : e < size := by
  induction h with
  | refl => exact hd
  | tail _ hstep _ => exact hclosed _ _ (Rule.target?_mem hstep)

/-- Inside of a table a chain that ends takes no more steps than there are definitions. -/
theorem tight_le (hclosed : Closed rule size) (hd : d < size) {n : Nat}
    (h : chainEnd? rule (n + 1) d = some e) (htight : chainEnd? rule n d = none) : n + 1 ≤ size := by
  obtain ⟨hnodup, hlength⟩ := nodup_of_tight h htight
  rw [← hlength]
  exact length_le_of_nodup hnodup fun x hx => (mem_chainFrom_leads hx).lt hclosed hd

/-- **No end is found exactly when there is none.** -/
theorem chainEnd?_eq_none_iff (hclosed : Closed rule size) (hd : d < size) :
    chainEnd? rule (size + 1) d = none ↔ Endless rule d := by
  constructor
  · intro h
    by_contra hends
    obtain ⟨fuel, e, he⟩ := not_endless_iff.1 hends
    obtain ⟨n, hn, htight⟩ := exists_tight he
    have hle := tight_le hclosed hd hn htight
    rw [chainEnd?_mono hn (by omega)] at h
    cases h
  · intro h
    cases hend : chainEnd? rule (size + 1) d with
    | none => rfl
    | some e => exact absurd h (not_endless_iff.2 ⟨_, e, hend⟩)

/-! ### The definitions along a chain -/

/-- The definitions from the first along a chain to its end: each stands for the next, and none is
visited twice. -/
structure ChainWalk (rule : DefId → Rule) (d e : DefId) (visited : List DefId) : Prop where
  first : visited.head? = some d
  last : visited.getLast? = some e
  linked : visited.IsChain (StandsFor rule)
  nodup : visited.Nodup

theorem head?_chainFrom (rule : DefId → Rule) (fuel : Nat) (d : DefId) :
    (Grammar.chainFrom rule fuel d).head? = some d := by
  cases fuel with
  | zero => rfl
  | succ fuel =>
      rw [Grammar.chainFrom]
      split <;> rfl

theorem chainFrom_isChain (rule : DefId → Rule) (fuel : Nat) (d : DefId) :
    (Grammar.chainFrom rule fuel d).IsChain (StandsFor rule) := by
  induction fuel generalizing d with
  | zero => exact List.isChain_singleton d
  | succ fuel ih =>
      rw [Grammar.chainFrom]
      split
      · next target htarget =>
        refine List.isChain_cons.2 ⟨fun x hx => ?_, ih target⟩
        rw [head?_chainFrom] at hx
        rw [← Option.some.inj hx]
        exact htarget
      · exact List.isChain_singleton d

theorem getLast?_chainFrom {fuel : Nat} (h : chainEnd? rule (fuel + 1) d = some e) :
    (Grammar.chainFrom rule fuel d).getLast? = some e := by
  induction fuel generalizing d with
  | zero =>
      rw [chainEnd?] at h
      cases htarget : (rule d).target? with
      | some target => simp [htarget, chainEnd?] at h
      | none =>
          rw [htarget] at h
          exact h
  | succ fuel ih =>
      rw [chainEnd?] at h
      rw [Grammar.chainFrom]
      cases htarget : (rule d).target? with
      | none =>
          rw [htarget] at h
          exact h
      | some target =>
          rw [htarget] at h
          rw [List.getLast?_cons, ih h]
          rfl

/-- **The chain of a definition is walked to its end**, and further steps visit nothing else. -/
theorem chainWalk_of_leads (hclosed : Closed rule size) (hd : d < size) (h : LeadsTo rule d e)
    (hend : (rule e).target? = none) {fuel : Nat} (hfuel : size ≤ fuel) :
    ChainWalk rule d e (Grammar.chainFrom rule fuel d) := by
  obtain ⟨n, hn⟩ := chainEnd?_of_leads h hend
  obtain ⟨n, hn, htight⟩ := exists_tight hn
  have hle := tight_le hclosed hd hn htight
  rw [Grammar.chainFrom_of_chainEnd? hn (by omega : n ≤ fuel)]
  exact ⟨head?_chainFrom rule n d, getLast?_chainFrom hn, chainFrom_isChain rule n d,
    (nodup_of_tight hn htight).1⟩

/-- Steps beyond the size of the table find nothing more of a chain that ends. -/
theorem chainFrom_eq (hclosed : Closed rule size) (hd : d < size) (h : LeadsTo rule d e)
    (hend : (rule e).target? = none) {fuel : Nat} (hfuel : size ≤ fuel) :
    Grammar.chainFrom rule fuel d = Grammar.chainFrom rule size d := by
  obtain ⟨n, hn⟩ := chainEnd?_of_leads h hend
  obtain ⟨n, hn, htight⟩ := exists_tight hn
  have hle := tight_le hclosed hd hn htight
  rw [Grammar.chainFrom_of_chainEnd? hn (by omega : n ≤ fuel),
    Grammar.chainFrom_of_chainEnd? hn (by omega : n ≤ size)]

/-! ### The check for chains -/

section Validators

variable {ε α β : Type}

/-- What fails for a list fails for its first member for which it does not succeed. -/
theorem mapM_eq_error {f : α → Except ε β} {as : List α} {fault : ε} (h : as.mapM f = .error fault) :
    ∃ (i : Nat) (a : α), as[i]? = some a ∧ f a = .error fault ∧
      ∀ j < i, ∀ b, as[j]? = some b → ∃ c, f b = .ok c := by
  induction as with
  | nil => simp [pure, Except.pure] at h
  | cons a as ih =>
      rw [List.mapM_cons] at h
      cases hfirst : f a with
      | error fault' =>
          rw [hfirst] at h
          obtain rfl : fault' = fault := Except.error.inj h
          exact ⟨0, a, rfl, hfirst, fun j hj => absurd hj (Nat.not_lt_zero j)⟩
      | ok b =>
          rw [hfirst] at h
          cases hrest : as.mapM f with
          | ok bs =>
              rw [hrest] at h
              cases h
          | error fault' =>
              rw [hrest] at h
              obtain rfl : fault' = fault := Except.error.inj h
              obtain ⟨i, x, hx, hfx, hbefore⟩ := ih hrest
              refine ⟨i + 1, x, hx, hfx, fun j hj y hy => ?_⟩
              cases j with
              | zero =>
                  obtain rfl : a = y := Option.some.inj hy
                  exact ⟨b, hfirst⟩
              | succ j => exact hbefore j (Nat.lt_of_succ_lt_succ hj) y hy

end Validators

section Table

variable {rules : Array Rule} (hclosed : Closed (ruleOf rules) rules.size)
include hclosed

/-- **A chain is reported when it is the first that is endless.** -/
theorem resolveChains_error_first {fault : GrammarError} (h : resolveChains rules = .error fault) :
    ∃ d < rules.size, fault = .unresolvableReference d ∧ Endless (ruleOf rules) d ∧
      ∀ d' < d, ¬ Endless (ruleOf rules) d' := by
  obtain ⟨i, d, hi, hfault, hbefore⟩ := mapM_eq_error h
  obtain ⟨hlt, rfl⟩ : i < rules.size ∧ i = d := by
    obtain ⟨hlt, heq⟩ := List.getElem?_eq_some_iff.1 hi
    rw [List.length_range] at hlt
    exact ⟨hlt, by simpa using heq⟩
  refine ⟨i, hlt, ?_, ?_, fun d' hd' hendless => ?_⟩
  · split at hfault
    · cases hfault
    · exact (Except.error.inj hfault).symm
  · split at hfault
    · cases hfault
    · next hnone => exact (chainEnd?_eq_none_iff hclosed hlt).1 hnone
  · have hlt' : d' < rules.size := Nat.lt_trans hd' hlt
    obtain ⟨e, he⟩ := hbefore d' hd' d' (by simp [hlt'])
    rw [(chainEnd?_eq_none_iff hclosed hlt').2 hendless] at he
    cases he

/-- Otherwise every definition of the table gets the end of its chain. -/
theorem resolveChains_leads {resolved : List DefId} (h : resolveChains rules = .ok resolved)
    (hd : d < rules.size) :
    ∃ e < rules.size, resolved[d]? = some e ∧ LeadsTo (ruleOf rules) d e ∧
      (ruleOf rules e).target? = none := by
  obtain ⟨hlength, hget⟩ := mapM_eq_ok h
  obtain ⟨e, he, hend⟩ := hget d d (by simp [hd])
  split at hend
  · next e' hchain =>
    obtain rfl : e' = e := Except.ok.inj hend
    have hlead := leads_of_chainEnd? hchain
    exact ⟨e', hlead.lt hclosed hd, he, hlead, target?_chainEnd? hchain⟩
  · cases hend

/-- **The check for chains fails exactly when some chain is endless.** -/
theorem resolveChains_error_iff :
    (∃ fault, resolveChains rules = .error fault) ↔
      ∃ d < rules.size, Endless (ruleOf rules) d := by
  constructor
  · rintro ⟨fault, h⟩
    obtain ⟨d, hd, -, hendless, -⟩ := resolveChains_error_first hclosed h
    exact ⟨d, hd, hendless⟩
  · rintro ⟨d, hd, hendless⟩
    cases h : resolveChains rules with
    | error fault => exact ⟨fault, rfl⟩
    | ok resolved =>
        obtain ⟨e, -, -, hlead, hend⟩ := resolveChains_leads hclosed h hd
        obtain ⟨target, htarget⟩ := isIndirect_iff.1 (hendless e hlead)
        rw [hend] at htarget
        cases htarget

end Table

end Tessera
