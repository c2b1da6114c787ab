/-
**Coherence of contents.**

In a tree in use every content agrees with the parts below it: a leaf holds a text that its definition
accepts, and every other node that holds a content has active parts that hold contents, too, and its
own is theirs, one after the other.  A node without a content has nothing selected.

Main definitions:

* `Tessera.Tree.MadeUp` — a content is that of the children in turn;
* `Tessera.Tree.SetCoherent`, `Tessera.Tree.UnsetCoherent` — what holds of a node of each kind.

Main results:

* `Tessera.Session.coherent_run` — **every live node of a tree in use is coherent**.
-/

import Tessera.Proofs.Tree.Sessions

set_option autoImplicit false

namespace Tessera

open Branch Tessera.Tree

variable {t : Tree} {n : NodeId} {w : Text} {g : Grammar}

instance (t : Tree) (n : NodeId) : Decidable (t.Live n) :=
  decidable_of_iff (n.index < t.slots.size ∧ n.index ∉ t.free ∧
    (t.node n).generation = n.generation)
    ⟨fun ⟨hsize, hfree, hgeneration⟩ => ⟨hsize, hfree, hgeneration⟩,
      fun ⟨hsize, hfree, hgeneration⟩ => ⟨hsize, hfree, hgeneration⟩⟩

namespace Tree

/-- The children of a node all hold contents, which make up the given text in order. -/
def MadeUp (t : Tree) (n : NodeId) (w : Text) : Prop :=
  ∃ (children : List NodeId) (ws : List Text), t.children n = .ok children ∧
    children.map t.content = ws.map .ok ∧ w = ws.flatten

/-- A node with the content `w` is in agreement with its parts. -/
def SetCoherent (t : Tree) (n : NodeId) (w : Text) : Prop :=
  match t.shapeOf n with
  | .sequence _ => t.MadeUp n w
  | .choice defs => t.MadeUp n w ∧ ∃ (i : Nat) (c : NodeId) (d : DefId),
      t.currentIndex n = .ok (some i) ∧ t.current n = .ok (some c) ∧ defs[i]? = some d ∧
        t.definition c = .ok d
  | .optional _ _ => t.MadeUp n w ∧ ∃ present, t.isPresent n = .ok present ∧ (present = false → w = [])
  | .loop _ repetition => t.MadeUp n w ∧ ∃ items, t.items n = .ok items ∧
      repetition.admits items.length = true
  | .separated _ _ _ repetition => t.MadeUp n w ∧ ∃ items separators, t.items n = .ok items ∧
      t.separators n = .ok separators ∧ repetition.admits items.length = true ∧
        separators.length = items.length - 1
  | _ => t.grammar.LeafFits (t.node n).definition w

/-- A node without a content has nothing selected. -/
def UnsetCoherent (t : Tree) (n : NodeId) : Prop :=
  match t.shapeOf n with
  | .choice _ => t.currentIndex n = .ok none
  | .optional _ _ => t.isPresent n = .ok false
  | .loop _ _ => t.items n = .ok []
  | .separated _ _ _ _ => t.items n = .ok [] ∧ t.separators n = .ok []
  | _ => True

/-! ### Reading live nodes -/

namespace Live

variable (h : t.Live n)
include h

theorem get_eq : t.get n = .ok (t.node n) :=
  get_eq_ok.2 (lookup?_eq_some.2 ⟨h.size, h.generation, rfl⟩)

theorem children_eq : t.children n = .ok (t.node n).body.active := by
  rw [Tree.children, h.get_eq]
  rfl

theorem definition_eq : t.definition n = .ok (t.node n).definition := by
  rw [Tree.definition, h.get_eq]
  rfl

theorem content_eq_ok : t.content n = .ok w ↔ (t.node n).content = some w := by
  cases hcontent : (t.node n).content <;>
    simp [Tree.content, h.get_eq, bind, Except.bind, hcontent]

theorem content_eq_error (hnone : (t.node n).content = none) :
    t.content n = .error (.noContent n) := by
  simp [Tree.content, h.get_eq, bind, Except.bind, hnone]

theorem currentIndex_eq {alternatives : List (Option NodeId)} {current : Option Nat}
    (hbody : (t.node n).body = .choice alternatives current) : t.currentIndex n = .ok current := by
  simp [Tree.currentIndex, h.get_eq, bind, Except.bind, hbody]

theorem current_eq {alternatives : List (Option NodeId)} {current : Option Nat}
    (hbody : (t.node n).body = .choice alternatives current) :
    t.current n = .ok (Body.currentOf alternatives current) := by
  simp [Tree.current, h.get_eq, bind, Except.bind, hbody]

theorem isPresent_eq {child : Option NodeId} {present : Bool}
    (hbody : (t.node n).body = .optional child present) : t.isPresent n = .ok present := by
  simp [Tree.isPresent, h.get_eq, bind, Except.bind, hbody]

theorem items_loop {items : List NodeId} (hbody : (t.node n).body = .loop items) :
    t.items n = .ok items := by
  simp [Tree.items, h.get_eq, bind, Except.bind, hbody]

theorem items_separated {items separators : List NodeId}
    (hbody : (t.node n).body = .separated items separators) :
    t.items n = .ok items ∧ t.separators n = .ok separators := by
  simp [Tree.items, Tree.separators, h.get_eq, bind, Except.bind, hbody]

end Live

/-! ### Nodes in order are coherent -/

section

variable {roots : List Branch} (h : Garden t roots) (hn : n ∈ idsAll roots)
include h hn

/-- The children of a node that is no leaf make up its content. -/
theorem madeUp_of_garden (hleaf : ¬ (t.shapeOf n).isLeaf = true)
    (hw : (t.node n).content = some w) : t.MadeUp n w := by
  have hlive : t.Live n := h.live_iff.2 hn
  have hsound := h.sound n hn
  refine ⟨_, (t.node n).body.active.map fun c => (t.node c).content.getD [], hlive.children_eq, ?_, ?_⟩
  · rw [List.map_map]
    refine List.map_congr_left fun c hc => ?_
    have hlive : t.Live c := h.live_iff.2 (h.owned_mem hn (Body.owned_of_active hc)).1
    obtain ⟨v, hv⟩ := Option.isSome_iff_exists.1
      (hsound.settled.active (Option.isSome_iff_exists.2 ⟨w, hw⟩) c hc)
    rw [hlive.content_eq_ok.2 hv, Function.comp_apply, hv]
    rfl
  · have hcomposed := hsound.composed w hw
    rw [if_neg hleaf] at hcomposed
    rw [hcomposed, contents, List.flatMap_def]

/-- A node with a content is in agreement with its parts. -/
theorem setCoherent_of_garden (hvalid : t.grammar.Valid) (hw : (t.node n).content = some w) : t.SetCoherent n w := by
  have hlive : t.Live n := h.live_iff.2 hn
  have hsound := h.sound n hn
  have hset : (t.node n).content.isSome := Option.isSome_iff_exists.2 ⟨w, hw⟩
  have hmade : ¬ (t.shapeOf n).isLeaf = true → t.MadeUp n w :=
    fun hleaf => madeUp_of_garden h hn hleaf hw
  unfold SetCoherent
  cases hshape : t.shapeOf n with
  | sequence items => exact hmade (by simp [hshape, Rule.isLeaf])
  | choice defs =>
      refine ⟨hmade (by simp [hshape, Rule.isLeaf]), ?_⟩
      obtain ⟨alternatives, current, hbody, -, hdefs, hsome⟩ :=
        (formed_choice_iff hshape).1 hsound.formed
      obtain ⟨c, hc⟩ := Option.isSome_iff_exists.1
        (hsome (hsound.settled.chosen hset alternatives current hbody))
      obtain ⟨i, rfl, hi⟩ := Body.mem_currentOf hc
      have hcmem : c ∈ (t.node n).body.owned := by
        rw [hbody]
        exact List.mem_filterMap.2 ⟨some c, List.mem_of_getElem? hi, rfl⟩
      have hlive' : t.Live c := h.live_iff.2 (h.owned_mem hn hcmem).1
      exact ⟨i, c, _, hlive.currentIndex_eq hbody, by rw [hlive.current_eq hbody, hc], hdefs i c hi,
        hlive'.definition_eq⟩
  | optional item quantifier =>
      have hmade := hmade (by simp [hshape, Rule.isLeaf])
      obtain ⟨child, present, hbody, -, -⟩ := (formed_optional_iff hshape).1 hsound.formed
      refine ⟨hmade, present, hlive.isPresent_eq hbody, ?_⟩
      rintro rfl
      obtain ⟨children, ws, hchildren, hws, rfl⟩ := hmade
      rw [hlive.children_eq, hbody] at hchildren
      obtain rfl : [] = children := Except.ok.inj hchildren
      obtain rfl : ws = [] := by simpa using hws.symm
      rfl
  | loop item repetition =>
      refine ⟨hmade (by simp [hshape, Rule.isLeaf]), ?_⟩
      obtain ⟨items, hbody, -⟩ := (formed_loop_iff hshape).1 hsound.formed
      refine ⟨items, hlive.items_loop hbody, ?_⟩
      have := hsound.settled.admitted hset repetition (by rw [hshape]; rfl)
      rwa [hbody] at this
  | separated item separator default repetition =>
      refine ⟨hmade (by simp [hshape, Rule.isLeaf]), ?_⟩
      obtain ⟨items, separators, hbody, -, -, hlength⟩ :=
        (formed_separated_iff hshape).1 hsound.formed
      obtain ⟨hitems, hseparators⟩ := hlive.items_separated hbody
      refine ⟨items, separators, hitems, hseparators, ?_, hlength⟩
      have := hsound.settled.admitted hset repetition (by rw [hshape]; rfl)
      rwa [hbody] at this
  | literal text => simpa [hshape, Rule.isLeaf] using hsound.composed w hw
  | pattern source => simpa [hshape, Rule.isLeaf] using hsound.composed w hw
  | empty => simpa [hshape, Rule.isLeaf] using hsound.composed w hw
  | _ =>
      -- a structural rule does not stand for another one
      have htarget := hvalid.target?_shape (t.node n).definition
      rw [← shapeOf, hshape] at htarget
      simp [Rule.target?] at htarget

/-- A node without a content has nothing selected. -/
theorem unsetCoherent_of_garden (hnone : (t.node n).content = none) : t.UnsetCoherent n := by
  have hlive : t.Live n := h.live_iff.2 hn
  have hsound := h.sound n hn
  have hidle := hsound.settled.idle hnone
  unfold UnsetCoherent
  cases hshape : t.shapeOf n with
  | choice defs =>
      obtain ⟨alternatives, current, hbody, -⟩ := (formed_choice_iff hshape).1 hsound.formed
      rw [hbody] at hidle
      obtain rfl : current = none := hidle
      exact hlive.currentIndex_eq hbody
  | optional item quantifier =>
      obtain ⟨child, present, hbody, -⟩ := (formed_optional_iff hshape).1 hsound.formed
      rw [hbody] at hidle
      obtain rfl : present = false := hidle
      exact hlive.isPresent_eq hbody
  | loop item repetition =>
      obtain ⟨items, hbody, -⟩ := (formed_loop_iff hshape).1 hsound.formed
      rw [hbody] at hidle
      obtain rfl : items = [] := hidle
      exact hlive.items_loop hbody
  | separated item separator default repetition =>
      obtain ⟨items, separators, hbody, -⟩ := (formed_separated_iff hshape).1 hsound.formed
      rw [hbody] at hidle
      obtain ⟨rfl, rfl⟩ : items = [] ∧ separators = [] := hidle
      exact hlive.items_separated hbody
  | _ => trivial

end

end Tree

/-- **Every live node of a tree in use is coherent**: one with a content is in agreement with its
parts, and one without a content has nothing selected. -/
theorem Session.coherent_run {draft : Draft} (hbuild : draft.build = .ok g) (ops : List Operation)
    (hn : (Session.run g ops).tree.Live n) :
    (∃ w, (Session.run g ops).tree.content n = .ok w ∧ (Session.run g ops).tree.SetCoherent n w) ∨
      (Session.run g ops).tree.content n = .error (.noContent n) ∧
        (Session.run g ops).tree.UnsetCoherent n := by
  have hvalid := Draft.build_valid hbuild
  obtain ⟨hgrammar, -, roots, hgarden, -⟩ :=
    Session.tended_run hvalid (Draft.build_ranked hbuild) ops
  have hvalid' : (Session.run g ops).tree.grammar.Valid := by rwa [hgrammar]
  have hmem := hgarden.live_iff.1 hn
  cases hcontent : ((Session.run g ops).tree.node n).content with
  | some w =>
      exact .inl ⟨w, hn.content_eq_ok.2 hcontent,
        setCoherent_of_garden hgarden hmem hvalid' hcontent⟩
  | none => exact .inr ⟨hn.content_eq_error hcontent, unsetCoherent_of_garden hgarden hmem hcontent⟩

/-- The first part of a row, which is a row itself, is coherent. -/
theorem Session.coherent_run_row :
    (Session.run rowGrammar Session.rowOperations).tree.Live ⟨2, 0⟩ ∧
      ∃ w, (Session.run rowGrammar Session.rowOperations).tree.content ⟨2, 0⟩ = .ok w ∧
        (Session.run rowGrammar Session.rowOperations).tree.SetCoherent ⟨2, 0⟩ w := by
  have hlive : (Session.run rowGrammar Session.rowOperations).tree.Live ⟨2, 0⟩ := by
    rw [Session.run_rowOperations]
    decide
  refine ⟨hlive, (Session.coherent_run rowDraft_build _ hlive).resolve_right ?_⟩
  rintro ⟨hunset, -⟩
  have hset : rowTree.content ⟨2, 0⟩ = .ok ['a'] := rfl
  rw [Session.run_rowOperations, hset] at hunset
  cases hunset

end Tessera
