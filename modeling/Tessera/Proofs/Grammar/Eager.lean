/-
**No definition creates a node of itself.**

A node of a sequence is created together with nodes of the items.  The check for cycles walks along
these definitions and lists each one after all that it needs.  Counted from the end of the list, the
place of a definition is larger than those of the definitions that it needs, so the nesting of
sequences is bounded by the number of definitions.

Main definitions:

* `Tessera.Layered` — a list in which every definition needs only later ones;
* `Tessera.Grammar.Ranked` — ranks that fall along the definitions that are created together.

Main results:

* `Tessera.visitEager_layered` — **a walk without a cycle lists what it needs first**;
* `Tessera.Draft.build_ranked` — the definitions of a finished grammar have ranks;
* `Tessera.Grammar.Ranked.item_lt` — an item of a sequence ranks below the sequence.
-/

import Mathlib.Data.List.Nodup
import Mathlib.Data.List.Perm.Subperm
import Tessera.Proofs.Grammar.Valid

set_option autoImplicit false

namespace Tessera

variable {rule : DefId → Rule} {size : Nat}

/-! ### Lists in layers -/

/-- Every definition of the list needs only later ones, and none is listed twice. -/
def Layered (rule : DefId → Rule) : List DefId → Prop
  | [] => True
  | d :: ds => (∀ e ∈ (rule d).eager, e ∈ ds) ∧ d ∉ ds ∧ Layered rule ds

theorem Layered.nodup {ds : List DefId} (h : Layered rule ds) : ds.Nodup := by
  induction ds with
  | nil => exact List.nodup_nil
  | cons d ds ih => exact List.nodup_cons.2 ⟨h.2.1, ih h.2.2⟩

/-- How many definitions are listed from a definition on. -/
def rankIn : List DefId → DefId → Nat
  | [], _ => 0
  | x :: ds, d => if d = x then ds.length + 1 else rankIn ds d

theorem rankIn_le (ds : List DefId) (d : DefId) : rankIn ds d ≤ ds.length := by
  induction ds with
  | nil => exact Nat.le_refl 0
  | cons x ds ih =>
      rw [rankIn, List.length_cons]
      split <;> omega

/-- What a definition of the list needs is listed too. -/
theorem Layered.mem_of_eager {ds : List DefId} (h : Layered rule ds) {d e : DefId} (hd : d ∈ ds)
    (he : e ∈ (rule d).eager) : e ∈ ds := by
  induction ds with
  | nil => simp at hd
  | cons x ds ih =>
      obtain ⟨hx, _, hds⟩ := h
      rcases List.mem_cons.1 hd with rfl | hd
      · exact List.mem_cons_of_mem _ (hx e he)
      · exact List.mem_cons_of_mem _ (ih hds hd)

/-- What a definition of the list needs ranks below it. -/
theorem Layered.rankIn_lt {ds : List DefId} (h : Layered rule ds) {d e : DefId} (hd : d ∈ ds)
    (he : e ∈ (rule d).eager) : rankIn ds e < rankIn ds d := by
  induction ds with
  | nil => simp at hd
  | cons x ds ih =>
      obtain ⟨hx, hnew, hds⟩ := h
      rcases List.mem_cons.1 hd with rfl | hd
      · have hne : e ≠ d := fun heq => hnew (heq ▸ hx e he)
        have := rankIn_le ds e
        simp only [rankIn, if_neg hne, if_true]
        omega
      · have hdx : d ≠ x := fun heq => hnew (heq ▸ hd)
        have hex : e ≠ x := fun heq => hnew (heq ▸ hds.mem_of_eager hd he)
        simp only [rankIn, if_neg hdx, if_neg hex]
        exact ih hds hd

/-! ### Walks -/

/-- A list of definitions that are known to end has grown by definitions outside of the path. -/
structure Walked (rule : DefId → Rule) (size : Nat) (path done done' : List DefId) : Prop where
  layered : Layered rule done'
  grows : ∀ x ∈ done, x ∈ done'
  outside : ∀ x ∈ done', x ∈ done ∨ x ∉ path ∧ x < size

namespace Walked

variable {path done done' done'' : List DefId}

theorem refl (h : Layered rule done) : Walked rule size path done done :=
  ⟨h, fun _ hx => hx, fun _ hx => .inl hx⟩

theorem trans (h : Walked rule size path done done') (h' : Walked rule size path done' done'') :
    Walked rule size path done done'' := by
  refine ⟨h'.layered, fun x hx => h'.grows x (h.grows x hx), fun x hx => ?_⟩
  rcases h'.outside x hx with hx | hx
  · exact h.outside x hx
  · exact .inr hx

/-- Steps that each list one definition list all of them. -/
theorem foldlM {f : List DefId → DefId → Except (List DefId) (List DefId)} {es : List DefId}
    (hf : ∀ e ∈ es, ∀ done done', Layered rule done → f done e = .ok done' →
      Walked rule size path done done' ∧ e ∈ done')
    (hdone : Layered rule done) (h : es.foldlM f done = .ok done') :
    Walked rule size path done done' ∧ ∀ e ∈ es, e ∈ done' := by
  induction es generalizing done with
  | nil =>
      obtain rfl : done = done' := Except.ok.inj h
      exact ⟨.refl hdone, by simp⟩
  | cons e es ih =>
      rw [List.foldlM_cons] at h
      obtain ⟨done₁, hstep, hrest⟩ := Except.bind_eq_ok.1 h
      obtain ⟨hfirst, he⟩ := hf e (by simp) done done₁ hdone hstep
      obtain ⟨hrest, hmem⟩ := ih (fun x hx => hf x (by simp [hx])) hfirst.layered hrest
      refine ⟨hfirst.trans hrest, fun x hx => ?_⟩
      rcases List.mem_cons.1 hx with rfl | hx
      · exact hrest.grows x he
      · exact hmem x hx

end Walked

/-- Definitions without repetition, all of them in the table, are no more than the table has. -/
theorem length_le_of_nodup {path : List Nat} (h : path.Nodup) (hsize : ∀ x ∈ path, x < size) :
    path.length ≤ size := by
  have hsub : path ⊆ List.range size := fun x hx => List.mem_range.2 (hsize x hx)
  simpa using (List.subperm_of_subset h hsub).length_le

/-- **A walk without a cycle lists what it needs first**, and adds nothing of its path. -/
theorem visitEager_layered (hneeds : ∀ d, ∀ e ∈ (rule d).eager, e < size) {fuel : Nat}
    {path done done' : List DefId} {d : DefId} (hpath : (d :: path).Nodup)
    (hsize : ∀ x ∈ d :: path, x < size) (hfuel : size < fuel + path.length)
    (hdone : Layered rule done) (hnew : d ∉ done)
    (h : visitEager rule fuel path done d = .ok done') :
    Walked rule size path done done' ∧ d ∈ done' := by
  induction fuel generalizing path done done' d with
  | zero =>
      have := length_le_of_nodup hpath hsize
      simp only [List.length_cons] at this
      omega
  | succ fuel ih =>
      obtain ⟨done₁, hfold, hend⟩ := Except.bind_eq_ok.1 h
      obtain rfl : d :: done₁ = done' := Except.ok.inj hend
      have hvisit : ∀ e ∈ (rule d).eager, ∀ done done₁, Layered rule done →
          (if (d :: path).contains e then
              .error (e :: ((d :: path).takeWhile (· != e)).reverse)
            else if done.contains e then .ok done
            else visitEager rule fuel (d :: path) done e) = .ok done₁ →
          Walked rule size (d :: path) done done₁ ∧ e ∈ done₁ := by
        intro e he done done₁ hdone hstep
        split at hstep
        · simp at hstep
        next hout =>
        split at hstep
        · next hin =>
          obtain rfl : done = done₁ := Except.ok.inj hstep
          exact ⟨.refl hdone, by simpa using hin⟩
        · next hin =>
          have hout : e ∉ d :: path := by simpa using hout
          refine ih (List.nodup_cons.2 ⟨hout, hpath⟩) ?_ ?_ hdone (by simpa using hin) hstep
          · intro x hx
            rcases List.mem_cons.1 hx with rfl | hx
            · exact hneeds d x he
            · exact hsize x hx
          · rw [List.length_cons]
            omega
      obtain ⟨hwalked, hmem⟩ := Walked.foldlM hvisit hdone hfold
      -- nothing that is added lies on the path, so the definition itself is still new
      have hnew₁ : d ∉ done₁ := by
        intro hd
        rcases hwalked.outside d hd with hd | ⟨hd, _⟩
        · exact hnew hd
        · exact hd List.mem_cons_self
      refine ⟨⟨⟨hmem, hnew₁, hwalked.layered⟩, ?_, ?_⟩, List.mem_cons_self⟩
      · intro x hx
        exact List.mem_cons_of_mem _ (hwalked.grows x hx)
      · intro x hx
        rcases List.mem_cons.1 hx with rfl | hx
        · exact .inr ⟨(List.nodup_cons.1 hpath).1, hsize x List.mem_cons_self⟩
        · rcases hwalked.outside x hx with hx | ⟨hx, hlt⟩
          · exact .inl hx
          · exact .inr ⟨fun hmem => hx (List.mem_cons_of_mem _ hmem), hlt⟩

/-! ### Ranks -/

/-- What a rule creates together with its nodes, it mentions. -/
theorem Rule.eager_subset {r : Rule} {e : DefId} (h : e ∈ r.eager) : e ∈ r.references := by
  cases r <;> simp_all [Rule.eager, Rule.references]

/-- The definitions have ranks, at most as many as there are definitions, that fall along the
definitions that are created together. -/
def Grammar.Ranked (g : Grammar) : Prop :=
  ∃ rank : DefId → Nat, (∀ d, rank d ≤ g.size) ∧ ∀ d, ∀ e ∈ (g.rule d).eager, rank e < rank d

/-- A table that passes the check for cycles can be listed in layers. -/
theorem layered_of_checkEagerCycles {rules : Array Rule}
    (hneeds : ∀ d, ∀ e ∈ (ruleOf rules d).eager, e < rules.size)
    (h : checkEagerCycles rules = .ok ()) :
    ∃ done, Layered (ruleOf rules) done ∧ (∀ d ∈ done, d < rules.size) ∧
      ∀ d < rules.size, d ∈ done := by
  simp only [checkEagerCycles] at h
  split at h
  swap
  · simp at h
  next done hwalk =>
  have hvisit : ∀ d ∈ List.range rules.size, ∀ done done₁, Layered (ruleOf rules) done →
      (if done.contains d then .ok done
        else visitEager (ruleOf rules) (rules.size + 1) [] done d) = .ok done₁ →
      Walked (ruleOf rules) rules.size [] done done₁ ∧ d ∈ done₁ := by
    intro d hd done done₁ hdone hstep
    split at hstep
    · next hin =>
      obtain rfl : done = done₁ := Except.ok.inj hstep
      exact ⟨.refl hdone, by simpa using hin⟩
    · next hin =>
      refine visitEager_layered hneeds (by simp) ?_ (by simp) hdone (by simpa using hin) hstep
      intro x hx
      rw [List.mem_singleton.1 hx]
      exact List.mem_range.1 hd
  have hstart : Layered (ruleOf rules) [] := trivial
  obtain ⟨hwalked, hmem⟩ := Walked.foldlM hvisit hstart hwalk
  refine ⟨done, hwalked.layered, fun d hd => ?_, fun d hd => hmem d (List.mem_range.2 hd)⟩
  rcases hwalked.outside d hd with hd | ⟨_, hlt⟩
  · simp at hd
  · exact hlt

/-- **The definitions of a finished grammar have ranks.** -/
theorem Draft.build_ranked {draft : Draft} {g : Grammar} (h : draft.build = .ok g) : g.Ranked := by
  have hvalid := Draft.build_valid h
  obtain ⟨rules, _, h⟩ := Except.bind_eq_ok.1 h
  obtain ⟨⟨⟩, _, h⟩ := Except.bind_eq_ok.1 h
  obtain ⟨leaves, _, h⟩ := Except.bind_eq_ok.1 h
  obtain ⟨resolved, _, h⟩ := Except.bind_eq_ok.1 h
  obtain ⟨⟨⟩, hcycles, h⟩ := Except.bind_eq_ok.1 h
  obtain ⟨⟨⟩, _, h⟩ := Except.bind_eq_ok.1 h
  have hg := (Except.ok.inj h).symm
  have hrule : g.rule = ruleOf rules.toArray := by rw [hg]; rfl
  have hsize : g.size = rules.toArray.size := by rw [hg]; rfl
  have hneeds : ∀ d, ∀ e ∈ (ruleOf rules.toArray d).eager, e < rules.toArray.size := by
    intro d e he
    have := hvalid.references d e
    rw [hrule, hsize] at this
    exact this (Rule.eager_subset he)
  obtain ⟨done, hlayered, hlt, hmem⟩ := layered_of_checkEagerCycles hneeds hcycles
  refine ⟨rankIn done, fun d => ?_, fun d e he => ?_⟩
  · rw [hsize]
    exact Nat.le_trans (rankIn_le done d) (length_le_of_nodup hlayered.nodup hlt)
  · rw [hrule] at he
    by_cases hd : d < rules.toArray.size
    · exact hlayered.rankIn_lt (hmem d hd) he
    · have hout : ruleOf rules.toArray d = .empty := by
        rw [ruleOf, Array.getD, dif_neg hd]
      rw [hout] at he
      simp [Rule.eager] at he

namespace Grammar.Ranked

variable {g : Grammar}

/-- The structural definition ranks no higher than a definition that stands for it. -/
theorem resolve_le (hg : g.Valid) {rank : DefId → Nat}
    (hrank : ∀ d, ∀ e ∈ (g.rule d).eager, rank e < rank d) (d : DefId) :
    rank (g.resolve d) ≤ rank d := by
  obtain ⟨fuel, hend⟩ := hg.chainEnd d
  generalize g.resolve d = e at hend
  induction fuel generalizing d with
  | zero => simp [chainEnd?] at hend
  | succ fuel ih =>
      rw [chainEnd?] at hend
      split at hend
      · next target htarget =>
        have hlt : rank target < rank d := by
          refine hrank d target ?_
          revert htarget
          cases g.rule d <;> simp +contextual [Rule.target?, Rule.eager, eq_comm]
        exact Nat.le_trans (ih target hend) (Nat.le_of_lt hlt)
      · exact Nat.le_of_eq (congrArg rank (Option.some.inj hend).symm)

/-- An item of a sequence ranks below the sequence. -/
theorem item_lt (hg : g.Valid) {rank : DefId → Nat}
    (hrank : ∀ d, ∀ e ∈ (g.rule d).eager, rank e < rank d) {d e : DefId} {items : List DefId}
    (hshape : g.shape d = .sequence items) (he : e ∈ items) : rank e < rank d := by
  have hle := resolve_le hg hrank d
  have hlt : rank e < rank (g.resolve d) := by
    refine hrank _ e ?_
    rw [Grammar.shape] at hshape
    rw [hshape]
    exact he
  omega

end Grammar.Ranked

end Tessera
