/-
**Leftovers.**

Clearing a node takes the contents away from the node and from what it goes through: the children of a
sequence, the current alternative of a choice and the child of an optional.  It passes by the
alternatives that are not current.  So a node is blank afterwards, with nothing left in it or below it,
exactly when these alternatives were blank before.

Main definitions:

* `Tessera.Body.cleared` — what clearing leaves of the parts of a node;
* `Tessera.Body.swept` — the parts that clearing goes through;
* `Tessera.Tree.Blank` — nothing is left in a node or below it;
* `Tessera.Tree.Clearable` — clearing leaves nothing in a node;
* `Tessera.Tree.Drained` — there is nothing that clearing a node would release;
* `Tessera.Tree.Spare` — a node keeps a part although its content does not depend on it.

Main results:

* `Tessera.Tree.clearable_iff` — **clearing a node leaves what it passes by**;
* `Tessera.Grove.blank_congr`, `Tessera.Grove.clearable_congr`, `Tessera.Grove.drained_congr` — a change
  elsewhere changes none of them.
-/

import Tessera.Proofs.Tree.Groves

set_option autoImplicit false

namespace Tessera

open Branch Tessera.Tree

variable {t t' t'' : Tree} {parent : Option NodeId} {id p c x : NodeId}
  {bs bs' cs cs' : List Branch} {roots roots' : List NodeId}

namespace Body

/-- What clearing leaves of the parts of a node. -/
def cleared : Body → Body
  | choice alternatives _ => choice alternatives none
  | optional child _ => optional child false
  | loop _ => loop []
  | separated _ _ => separated [] []
  | body => body

/-- The parts that a node keeps for later use, whether they are selected or not: the alternatives of a
choice and the child of an optional that were made so far. -/
def kept : Body → List NodeId
  | choice alternatives _ => alternatives.filterMap fun c => c
  | optional child _ => child.toList
  | _ => []

/-- The parts that clearing goes through. -/
def swept : Body → List NodeId
  | sequence children => children
  | choice alternatives current => (currentOf alternatives current).toList
  | optional child _ => child.toList
  | _ => []

theorem owned_of_kept {body : Body} (h : c ∈ body.kept) : c ∈ body.owned := by
  cases body with
  | choice alternatives current => exact h
  | optional child present => exact h
  | _ => simp [kept] at h

theorem idle_cleared (body : Body) : body.cleared.Idle := by
  cases body <;> simp [cleared, Idle]

/-- Clearing makes no new parts. -/
theorem owned_of_cleared {body : Body} (h : c ∈ body.cleared.owned) : c ∈ body.owned := by
  cases body <;> simp_all [cleared, owned]

/-- What clearing goes through the next time, it goes through the first time. -/
theorem swept_of_cleared {body : Body} (h : c ∈ body.cleared.swept) : c ∈ body.swept := by
  cases body <;> simp_all [cleared, swept, currentOf]

/-- What a node keeps, clearing keeps. -/
theorem owned_cleared_of_kept {body : Body} (h : c ∈ body.kept) : c ∈ body.cleared.owned := by
  cases body <;> simp_all [kept, cleared, owned]

/-- Clearing goes through parts that it keeps. -/
theorem owned_cleared_of_swept {body : Body} (h : c ∈ body.swept) : c ∈ body.cleared.owned := by
  cases body with
  | sequence children => exact h
  | choice alternatives current =>
      exact owned_of_active (b := .choice alternatives current) h
  | optional child present => exact h
  | _ => simp [swept] at h

/-- Clearing passes by the alternatives that are not current, and by nothing else. -/
theorem passed_iff {body : Body} : c ∈ body.cleared.owned ∧ c ∉ body.swept ↔
    ∃ alternatives current, body = .choice alternatives current ∧
      some c ∈ alternatives ∧ currentOf alternatives current ≠ some c := by
  cases body with
  | choice alternatives current => simp [cleared, owned, swept]
  | _ => simp [cleared, owned, swept]

end Body

namespace Tree

/-! ### Nothing left -/

/-- Nothing is left in the node or below it: no content, no selection, and no elements of loops. -/
def Blank (t : Tree) (id : NodeId) : Prop :=
  ∀ x, t.Below id x → (t.node x).content = none ∧ (t.node x).body.Idle

/-- The node `p` keeps the part `c` although its content does not depend on it: an alternative that is not
current, or the child of an optional that is absent. -/
def Spare (t : Tree) (p c : NodeId) : Prop :=
  c ∈ (t.node p).body.kept ∧ c ∉ (t.node p).body.active

/-- Clearing the node leaves nothing in it: the alternatives that it passes by are blank. -/
inductive Clearable (t : Tree) : NodeId → Prop
  | node {id : NodeId} (swept : ∀ c ∈ (t.node id).body.swept, Clearable t c)
      (passed : ∀ c ∈ (t.node id).body.cleared.owned, c ∉ (t.node id).body.swept → t.Blank c) :
      Clearable t id

/-- Clearing the node `p` leaves nothing in its part `c`. -/
def LeavesBlank (t : Tree) (p c : NodeId) : Prop :=
  if c ∈ (t.node p).body.swept then t.Clearable c else t.Blank c

/-- There is nothing that clearing the node would release: neither the node nor anything that clearing goes
through has a selection or elements. -/
inductive Drained (t : Tree) : NodeId → Prop
  | node {id : NodeId} (idle : (t.node id).body.Idle)
      (swept : ∀ c ∈ (t.node id).body.swept, Drained t c) : Drained t id

theorem blank_iff : t.Blank id ↔
    (t.node id).content = none ∧ (t.node id).body.Idle ∧ ∀ c ∈ (t.node id).body.owned, t.Blank c := by
  constructor
  · intro h
    exact ⟨(h id .refl).1, (h id .refl).2, fun c hc x hx => h x (.head hc hx)⟩
  · rintro ⟨hcontent, hidle, hparts⟩ x hx
    rcases Relation.ReflTransGen.cases_head hx with rfl | ⟨c, hc, hx⟩
    · exact ⟨hcontent, hidle⟩
    · exact hparts c hc x hx

/-- **Clearing a node leaves what it passes by.** -/
theorem clearable_iff :
    t.Clearable id ↔ ∀ c ∈ (t.node id).body.cleared.owned, t.LeavesBlank id c := by
  unfold LeavesBlank
  constructor
  · rintro ⟨hswept, hpassed⟩ c hc
    split
    · next h => exact hswept c h
    · next h => exact hpassed c hc h
  · intro h
    refine .node (fun c hc => ?_) fun c hc hnot => ?_
    · simpa [hc] using h c (Body.owned_cleared_of_swept hc)
    · simpa [hnot] using h c hc

/-- A node that was cleared is blank when its parts are. -/
theorem blank_cleared_iff (hself : t'.node id =
      { t.node id with content := none, body := (t.node id).body.cleared })
    (hparts : ∀ c ∈ (t.node id).body.cleared.owned, t'.Blank c ↔ t.LeavesBlank id c) :
    t'.Blank id ↔ t.Clearable id := by
  rw [blank_iff, clearable_iff, hself]
  simp only [true_and, Body.idle_cleared]
  exact forall₂_congr hparts

/-! ### Changes elsewhere -/

theorem blank_congr (h : ∀ x, t.Below id x → t'.node x = t.node x) : t'.Blank id ↔ t.Blank id := by
  have hbelow : ∀ x, t'.Below id x ↔ t.Below id x := fun x =>
    below_congr fun y hy => by rw [h y hy]
  unfold Blank
  refine forall_congr' fun x => ?_
  rw [hbelow]
  exact forall_congr' fun hx => by rw [h x hx]

theorem Clearable.congr (hc : t.Clearable id) (h : ∀ x, t.Below id x → t'.node x = t.node x) :
    t'.Clearable id := by
  induction hc with
  | @node id hswept hpassed ih =>
      have hself := h id .refl
      refine .node (fun c hc => ?_) fun c hc hnot => ?_
      · rw [hself] at hc
        exact ih c hc fun x hx => h x (.head (Body.owned_of_cleared (Body.owned_cleared_of_swept hc)) hx)
      · rw [hself] at hc hnot
        exact (blank_congr fun x hx => h x (.head (Body.owned_of_cleared hc) hx)).2 (hpassed c hc hnot)

theorem Drained.congr (hd : t.Drained id) (h : ∀ x, t.Below id x → (t'.node x).body = (t.node x).body) :
    t'.Drained id := by
  induction hd with
  | @node id hidle hswept ih =>
      have hself := h id .refl
      refine .node (hself ▸ hidle) fun c hc => ?_
      rw [hself] at hc
      exact ih c hc fun x hx => h x (.head (Body.owned_of_cleared (Body.owned_cleared_of_swept hc)) hx)

theorem clearable_congr (h : ∀ x, t.Below id x → t'.node x = t.node x) :
    t'.Clearable id ↔ t.Clearable id := by
  refine ⟨fun hc => hc.congr fun x hx => ?_, fun hc => hc.congr h⟩
  rw [below_congr fun y hy => by rw [h y hy]] at hx
  exact (h x hx).symm

end Tree

namespace Grove

/-- A change elsewhere leaves blank what is blank. -/
theorem blank_congr (h : Grove t parent bs) (hsame : ∀ x ∈ idsAll bs, t'.node x = t.node x)
    (hid : id ∈ idsAll bs) : t'.Blank id ↔ t.Blank id :=
  Tree.blank_congr fun x hx => hsame x (h.below_mem hid hx)

/-- A change elsewhere leaves drained what is drained. -/
theorem drained_congr (h : Grove t parent bs)
    (hsame : ∀ x ∈ idsAll bs, (t'.node x).body = (t.node x).body) (hid : id ∈ idsAll bs)
    (hd : t.Drained id) : t'.Drained id :=
  hd.congr fun x hx => hsame x (h.below_mem hid hx)

theorem clearable_congr (h : Grove t parent bs) (hsame : ∀ x ∈ idsAll bs, t'.node x = t.node x)
    (hid : id ∈ idsAll bs) : t'.Clearable id ↔ t.Clearable id :=
  Tree.clearable_congr fun x hx => hsame x (h.below_mem hid hx)

/-- A change elsewhere leaves alone what clearing a node would leave. -/
theorem leavesBlank_congr (h : Grove t parent bs) (hsame : ∀ x ∈ idsAll bs, t'.node x = t.node x)
    (hp : p ∈ idsAll bs) (hc : c ∈ (t.node p).body.owned) :
    t'.LeavesBlank p c ↔ t.LeavesBlank p c := by
  have hmem := (h.owned_mem hp hc).1
  unfold LeavesBlank
  rw [hsame p hp, h.clearable_congr hsame hmem, h.blank_congr hsame hmem]

end Grove

end Tessera
