/-
**Nodes that are in order.**

Three things are said about a single node, in terms of the node and of its parts.  Its parts are
those that its definition asks for.  When it holds a content, its active parts hold contents too and
there are as many as its definition admits; when it holds none, nothing is selected.  And its content
is the text of its rule or is made up of the contents of its active parts.

Main definitions:

* `Tessera.Tree.Formed` — the parts are those that the definition asks for;
* `Tessera.Tree.Settled` — what is selected agrees with whether there is a content;
* `Tessera.Tree.Composed` — the content is the one that the parts make up;
* `Tessera.Tree.Sound` — all three.

Main results:

* `Tessera.Tree.Sound.congr` — **a node is in order as long as it and its parts stay**.
-/

import Tessera.Proofs.Search.Fitting
import Tessera.Proofs.Tree.Branches
import Tessera.Tree.Assign

set_option autoImplicit false

namespace Tessera

/-! ### Parts -/

namespace Body

/-- The items of a loop. -/
def items : Body → List NodeId
  | loop items => items
  | separated items _ => items
  | _ => []

/-- Nothing is selected: no alternative is current, no optional part is there, and a loop has no
items. -/
def Idle : Body → Prop
  | choice _ current => current = none
  | optional _ present => present = false
  | loop items => items = []
  | separated items separators => items = [] ∧ separators = []
  | _ => True

theorem mem_currentOf {alternatives : List (Option NodeId)} {current : Option Nat} {c : NodeId}
    (h : currentOf alternatives current = some c) :
    ∃ i, current = some i ∧ alternatives[i]? = some (some c) := by
  obtain ⟨i, rfl, hi⟩ := Option.bind_eq_some_iff.1 h
  exact ⟨i, rfl, Option.join_eq_some_iff.1 hi⟩

theorem currentOf_some {alternatives : List (Option NodeId)} {i : Nat} {c : NodeId}
    (h : alternatives[i]? = some (some c)) : currentOf alternatives (some i) = some c := by
  simp [currentOf, h]

theorem mem_append_of_mem_interleave {items separators : List NodeId} {c : NodeId}
    (h : c ∈ interleave items separators) : c ∈ items ++ separators := by
  induction items generalizing separators with
  | nil => simp [interleave] at h
  | cons item items ih =>
      cases separators with
      | nil =>
          rw [interleave] at h
          rcases List.mem_cons.1 h with rfl | h
          · simp
          · have := ih h
            simp_all
      | cons separator separators =>
          rw [interleave] at h
          rcases List.mem_cons.1 h with rfl | h
          · simp
          · rcases List.mem_cons.1 h with rfl | h
            · simp
            · have := ih h
              simp at this ⊢
              tauto

/-- The active parts are among those that are held. -/
theorem owned_of_active {b : Body} {c : NodeId} (h : c ∈ b.active) : c ∈ b.owned := by
  cases b with
  | leaf => exact h
  | sequence children => exact h
  | choice alternatives current =>
      obtain ⟨i, _, hi⟩ := mem_currentOf (Option.mem_toList.1 h)
      exact List.mem_filterMap.2 ⟨some c, List.mem_of_getElem? hi, rfl⟩
  | optional child present =>
      rw [active] at h
      split at h
      · exact h
      · simp at h
  | loop items => exact h
  | separated items separators => exact mem_append_of_mem_interleave h

/-- A body without a selection has no active parts, unless it is a sequence. -/
theorem Idle.active_eq {b : Body} (h : b.Idle) (hseq : ∀ children, b ≠ .sequence children) :
    b.active = [] := by
  cases b with
  | leaf => rfl
  | sequence children => exact absurd rfl (hseq children)
  | choice alternatives current =>
      obtain rfl : current = none := h
      rfl
  | optional child present =>
      obtain rfl : present = false := h
      rfl
  | loop items =>
      obtain rfl : items = [] := h
      rfl
  | separated items separators =>
      obtain ⟨rfl, rfl⟩ : items = [] ∧ separators = [] := h
      rfl

end Body

namespace Tree

/-! ### A node and its parts -/

/-- A node has the parts that its definition asks for, each of them built from the definition that
stands in its place. -/
def Formed (t : Tree) (id : NodeId) : Prop :=
  match t.shapeOf id with
  | .sequence items => ∃ children, (t.node id).body = .sequence children ∧
      children.map (fun c => (t.node c).definition) = items
  | .choice defs => ∃ (alternatives : List (Option NodeId)) (current : Option Nat),
      (t.node id).body = .choice alternatives current ∧
      alternatives.length = defs.length ∧
      (∀ (i : Nat) (c : NodeId), alternatives[i]? = some (some c) →
        defs[i]? = some (t.node c).definition) ∧
      (current.isSome = true → (Body.currentOf alternatives current).isSome = true)
  | .optional item _ => ∃ child present, (t.node id).body = .optional child present ∧
      (∀ c, child = some c → (t.node c).definition = item) ∧ (present = true → child.isSome)
  | .loop item _ => ∃ items, (t.node id).body = .loop items ∧
      ∀ c ∈ items, (t.node c).definition = item
  | .separated item separator _ _ => ∃ items separators,
      (t.node id).body = .separated items separators ∧
      (∀ c ∈ items, (t.node c).definition = item) ∧
      (∀ c ∈ separators, (t.node c).definition = separator) ∧
      separators.length = items.length - 1
  | _ => (t.node id).body = .leaf

/-- What is selected in a node agrees with whether it holds a content. -/
structure Settled (t : Tree) (id : NodeId) : Prop where
  idle : (t.node id).content = none → (t.node id).body.Idle
  active : (t.node id).content.isSome →
    ∀ c ∈ (t.node id).body.active, (t.node c).content.isSome
  chosen : (t.node id).content.isSome → ∀ alternatives current,
    (t.node id).body = .choice alternatives current → current.isSome
  admitted : (t.node id).content.isSome → ∀ r, (t.shapeOf id).repetition? = some r →
    r.admits (t.node id).body.items.length = true

/-- The contents of several nodes, one after the other. -/
def contents (t : Tree) (ids : List NodeId) : Text :=
  ids.flatMap fun c => (t.node c).content.getD []

/-- The content of a leaf is one that its definition accepts; any other content is made up of those
of the active parts. -/
def Composed (t : Tree) (id : NodeId) : Prop :=
  ∀ w, (t.node id).content = some w →
    if (t.shapeOf id).isLeaf then t.grammar.LeafFits (t.node id).definition w
    else w = t.contents (t.node id).body.active

/-- A node is in order. -/
structure Sound (t : Tree) (id : NodeId) : Prop where
  formed : t.Formed id
  settled : t.Settled id
  composed : t.Composed id

variable {t t' : Tree} {id : NodeId}

/-! ### The parts of each kind of node -/

theorem formed_leaf_iff (h : (t.shapeOf id).isLeaf = true) :
    t.Formed id ↔ (t.node id).body = .leaf := by
  unfold Formed
  cases hshape : t.shapeOf id <;> simp_all [Rule.isLeaf]

theorem formed_sequence_iff {items : List DefId} (h : t.shapeOf id = .sequence items) :
    t.Formed id ↔ ∃ children, (t.node id).body = .sequence children ∧
      children.map (fun c => (t.node c).definition) = items := by
  unfold Formed
  rw [h]

theorem formed_choice_iff {defs : List DefId} (h : t.shapeOf id = .choice defs) :
    t.Formed id ↔ ∃ (alternatives : List (Option NodeId)) (current : Option Nat),
      (t.node id).body = .choice alternatives current ∧
      alternatives.length = defs.length ∧
      (∀ (i : Nat) (c : NodeId), alternatives[i]? = some (some c) →
        defs[i]? = some (t.node c).definition) ∧
      (current.isSome = true → (Body.currentOf alternatives current).isSome = true) := by
  unfold Formed
  rw [h]

theorem formed_optional_iff {item : DefId} {quantifier : Quantifier}
    (h : t.shapeOf id = .optional item quantifier) :
    t.Formed id ↔ ∃ child present, (t.node id).body = .optional child present ∧
      (∀ c, child = some c → (t.node c).definition = item) ∧ (present = true → child.isSome) := by
  unfold Formed
  rw [h]

theorem formed_loop_iff {item : DefId} {repetition : Repetition}
    (h : t.shapeOf id = .loop item repetition) :
    t.Formed id ↔ ∃ items, (t.node id).body = .loop items ∧
      ∀ c ∈ items, (t.node c).definition = item := by
  unfold Formed
  rw [h]

theorem formed_separated_iff {item separator : DefId} {default : Option Text}
    {repetition : Repetition} (h : t.shapeOf id = .separated item separator default repetition) :
    t.Formed id ↔ ∃ items separators, (t.node id).body = .separated items separators ∧
      (∀ c ∈ items, (t.node c).definition = item) ∧
      (∀ c ∈ separators, (t.node c).definition = separator) ∧
      separators.length = items.length - 1 := by
  unfold Formed
  rw [h]

/-! ### Nodes that stay -/

theorem contents_congr {ids : List NodeId}
    (h : ∀ c ∈ ids, (t'.node c).content = (t.node c).content) : t'.contents ids = t.contents ids := by
  induction ids with
  | nil => rfl
  | cons c ids ih =>
      have hc := h c (by simp)
      have hids := ih fun d hd => h d (by simp [hd])
      simp only [contents, List.flatMap_cons] at hids ⊢
      rw [hc, hids]

theorem Formed.congr (h : t.Formed id) (hgrammar : t'.grammar = t.grammar)
    (hself : (t.node id).Stays (t'.node id))
    (hparts : ∀ c ∈ (t.node id).body.owned, (t'.node c).definition = (t.node c).definition) :
    t'.Formed id := by
  have hshape : t'.shapeOf id = t.shapeOf id := by
    rw [shapeOf, shapeOf, hgrammar, hself.definition]
  unfold Formed at h ⊢
  rw [hshape, hself.body]
  split at h
  · obtain ⟨children, hbody, hdefs⟩ := h
    refine ⟨children, hbody, ?_⟩
    rw [← hdefs]
    refine List.map_congr_left fun c hc => hparts c ?_
    rwa [hbody]
  · obtain ⟨alternatives, current, hbody, hlength, hdefs, hcurrent⟩ := h
    refine ⟨alternatives, current, hbody, hlength, fun i c hc => ?_, hcurrent⟩
    rw [hparts c, hdefs i c hc]
    rw [hbody]
    exact List.mem_filterMap.2 ⟨some c, List.mem_of_getElem? hc, rfl⟩
  · obtain ⟨child, present, hbody, hdef, hpresent⟩ := h
    refine ⟨child, present, hbody, fun c hc => ?_, hpresent⟩
    rw [hparts c, hdef c hc]
    rw [hbody, hc]
    simp [Body.owned]
  · obtain ⟨items, hbody, hdefs⟩ := h
    refine ⟨items, hbody, fun c hc => ?_⟩
    rw [hparts c, hdefs c hc]
    rwa [hbody]
  · obtain ⟨items, separators, hbody, hitems, hseparators, hlength⟩ := h
    refine ⟨items, separators, hbody, fun c hc => ?_, fun c hc => ?_, hlength⟩
    · rw [hparts c, hitems c hc]
      rw [hbody]
      exact List.mem_append_left _ hc
    · rw [hparts c, hseparators c hc]
      rw [hbody]
      exact List.mem_append_right _ hc
  · exact h

theorem Settled.congr (h : t.Settled id) (hgrammar : t'.grammar = t.grammar)
    (hself : (t.node id).Stays (t'.node id))
    (hset : (t'.node id).content.isSome = (t.node id).content.isSome)
    (hparts : ∀ c ∈ (t.node id).body.active, (t.node c).content.isSome →
      (t'.node c).content.isSome) : t'.Settled id := by
  have hshape : t'.shapeOf id = t.shapeOf id := by
    rw [shapeOf, shapeOf, hgrammar, hself.definition]
  refine ⟨?_, ?_, ?_, ?_⟩
  · intro hnone
    rw [hself.body]
    refine h.idle ?_
    rw [← Option.isNone_iff_eq_none] at hnone ⊢
    rw [← Option.not_isSome] at hnone ⊢
    rwa [← hset]
  · intro hsome c hc
    rw [hself.body] at hc
    rw [hset] at hsome
    exact hparts c hc (h.active hsome c hc)
  · intro hsome
    rw [hself.body]
    rw [hset] at hsome
    exact h.chosen hsome
  · intro hsome
    rw [hself.body, hshape]
    rw [hset] at hsome
    exact h.admitted hsome

theorem Composed.congr (h : t.Composed id) (hgrammar : t'.grammar = t.grammar)
    (hself : (t.node id).Stays (t'.node id))
    (hcontent : (t'.node id).content = (t.node id).content)
    (hparts : ∀ c ∈ (t.node id).body.active, (t'.node c).content = (t.node c).content) :
    t'.Composed id := by
  have hshape : t'.shapeOf id = t.shapeOf id := by
    rw [shapeOf, shapeOf, hgrammar, hself.definition]
  intro w hw
  rw [hcontent] at hw
  have := h w hw
  rw [hshape, hself.body, hgrammar, hself.definition, contents_congr hparts]
  exact this

/-- **A node is in order as long as it and its parts stay.** -/
theorem Sound.congr (h : t.Sound id) (hgrammar : t'.grammar = t.grammar)
    (hself : (t.node id).Stays (t'.node id))
    (hcontent : (t'.node id).content = (t.node id).content)
    (hparts : ∀ c ∈ (t.node id).body.owned,
      (t.node c).Stays (t'.node c) ∧ (t'.node c).content = (t.node c).content) : t'.Sound id where
  formed := h.formed.congr hgrammar hself fun c hc => (hparts c hc).1.definition
  settled := by
    refine h.settled.congr hgrammar hself (by rw [hcontent]) fun c hc hsome => ?_
    rwa [(hparts c (Body.owned_of_active hc)).2]
  composed := h.composed.congr hgrammar hself hcontent
    fun c hc => (hparts c (Body.owned_of_active hc)).2

end Tree

end Tessera
