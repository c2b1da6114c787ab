/-
**Shelters.**

Only elements of loops are ever released, together with what is below them.  To follow a node
through a run of calls one draws a line around it and around whatever it is reached through: a
*shelter*, a set of slots which no element of a loop is in and which no part of an outer node is in
either, except at the gate.  As long as nothing at the gate is released, nothing inside is, and the
nodes inside keep their parts: the children of a sequence, the alternatives of a choice and the child
of an optional that were made so far.

This holds of every tree, whether it is in order or not, and of every step that an operation consists
of; the record of an operation tells what it released.

Main definitions:

* `Tessera.Body.Continues` — a node has the parts that it had, and perhaps more;
* `Tessera.Shelter` — slots with a gate;
* `Tessera.Tree.Sheltered` — a shelter keeps out what may be released;
* `Tessera.Tree.Guarded` — what happens to the nodes in a shelter.

Main results:

* `Tessera.Edit.assign_guarded` — assignments;
* `Tessera.Tree.perform_guarded`, `Tessera.Session.foldl_guarded` — **calls and runs of calls**.
-/

import Tessera.Proofs.Tree.Releases

set_option autoImplicit false

namespace Tessera

open Tessera.Tree

/-! ### Parts that stay -/

namespace Body

variable {body body' body'' : Body} {alternatives : List (Option NodeId)} {current : Option Nat}
  {c x : NodeId} {index : Nat}

/-- A node with the first parts may come to have the second ones: a sequence keeps its children, a
choice the alternatives and an optional the child that were made so far. -/
inductive Continues : Body → Body → Prop
  | leaf : Continues leaf leaf
  | sequence (children : List NodeId) : Continues (sequence children) (sequence children)
  | choice {alternatives alternatives' : List (Option NodeId)} {current current' : Option Nat}
      (h : ∀ (i : Nat) (c : NodeId), alternatives[i]? = some (some c) →
        alternatives'[i]? = some (some c)) :
      Continues (choice alternatives current) (choice alternatives' current')
  | optional {child child' : Option NodeId} {present present' : Bool}
      (h : ∀ c : NodeId, child = some c → child' = some c) :
      Continues (optional child present) (optional child' present')
  | loop (items items' : List NodeId) : Continues (loop items) (loop items')
  | separated (items separators items' separators' : List NodeId) :
      Continues (separated items separators) (separated items' separators')

namespace Continues

theorem refl (body : Body) : body.Continues body := by
  cases body with
  | leaf => exact .leaf
  | sequence children => exact .sequence children
  | choice alternatives current => exact .choice fun _ _ h => h
  | optional child present => exact .optional fun _ h => h
  | loop items => exact .loop items items
  | separated items separators => exact .separated ..

theorem trans (h : body.Continues body') (h' : body'.Continues body'') : body.Continues body'' := by
  cases h with
  | leaf => exact h'
  | sequence children => exact h'
  | choice h =>
      cases h' with
      | choice h' => exact .choice fun i c hc => h' i c (h i c hc)
  | optional h =>
      cases h' with
      | optional h' => exact .optional fun c hc => h' c (h c hc)
  | loop items _ =>
      cases h' with
      | loop _ items'' => exact .loop items items''
  | separated items separators _ _ =>
      cases h' with
      | separated => exact .separated ..

/-- An alternative that is missing can be made. -/
theorem set_alternative {current' : Option Nat} (h : ∀ x, alternatives[index]?.join = some x → x = c) :
    (Body.choice alternatives current).Continues
      (.choice (alternatives.set index (some c)) current') := by
  refine .choice fun i x hx => ?_
  by_cases hi : index = i
  · subst hi
    rw [List.getElem?_set_self (List.getElem?_eq_some_iff.1 hx).1, h x (by rw [hx]; rfl)]
  · rwa [List.getElem?_set_ne hi]

end Continues

/-- The alternatives after one of them was made. -/
theorem owned_set_alternative (current : Option Nat) {current' : Option Nat}
    (h : x ∈ (choice (alternatives.set index (some c)) current').owned) :
    x = c ∨ x ∈ (choice alternatives current).owned := by
  obtain ⟨a, ha, hx⟩ := List.mem_filterMap.1 h
  rcases List.mem_or_eq_of_mem_set ha with ha | rfl
  · exact .inr (List.mem_filterMap.2 ⟨a, ha, hx⟩)
  · exact .inl (Option.some.inj hx).symm

/-- An alternative that was made so far is a part. -/
theorem owned_of_alternative (h : alternatives[index]? = some (some c)) :
    c ∈ (choice alternatives current).owned :=
  List.mem_filterMap.2 ⟨some c, List.mem_of_getElem? h, rfl⟩

end Body

/-- A node is the same one and keeps its parts. -/
structure Node.Continues (n n' : Node) : Prop where
  generation : n'.generation = n.generation
  definition : n'.definition = n.definition
  body : n.body.Continues n'.body

namespace Node.Continues

theorem refl (n : Node) : n.Continues n := ⟨rfl, rfl, .refl _⟩

theorem trans {n n' n'' : Node} (h : n.Continues n') (h' : n'.Continues n'') : n.Continues n'' :=
  ⟨h'.generation.trans h.generation, h'.definition.trans h.definition, h.body.trans h'.body⟩

end Node.Continues

/-! ### Shelters -/

/-- Slots, and the gate through which nodes inside are reached from outside. -/
structure Shelter where
  inside : Nat → Prop
  gate : Nat → Prop

namespace Shelter

variable {W : Shelter} {log log' : List NodeId}

/-- A node that is outside, or at the gate. -/
def Open (W : Shelter) (id : NodeId) : Prop := W.inside id.index → W.gate id.index

/-- Nothing at the gate is in a record. -/
def Shut (W : Shelter) (log : List NodeId) : Prop := ∀ id ∈ log, ¬ W.gate id.index

theorem Open.of_outside {id : NodeId} (h : ¬ W.inside id.index) : W.Open id := fun hin => absurd hin h

theorem Shut.left (h : W.Shut (log ++ log')) : W.Shut log :=
  fun id hid => h id (List.mem_append_left _ hid)

theorem Shut.right (h : W.Shut (log ++ log')) : W.Shut log' :=
  fun id hid => h id (List.mem_append_right _ hid)

end Shelter

namespace Tree

variable {W : Shelter} {t t' t'' : Tree} {id n : NodeId} {log log' : List NodeId} {text : Text}

/-- The slots inside are occupied; elements of loops and parts of nodes outside are inside at the gate
at most. -/
structure Sheltered (t : Tree) (W : Shelter) : Prop where
  occupied : ∀ i, W.inside i → i < t.slots.size ∧ i ∉ t.free
  elements : ∀ i, ∀ e ∈ (t.slot i).body.elements, W.Open e
  parts : ∀ i, ¬ W.inside i → ∀ c ∈ (t.slot i).body.owned, W.Open c

theorem Sheltered.elements_of_body (h : t.Sheltered W) {body : Body}
    (hbody : (t.node id).body = body) : ∀ e ∈ body.elements, W.Open e :=
  hbody ▸ h.elements id.index

theorem Sheltered.parts_of_body (h : t.Sheltered W) {body : Body}
    (hbody : (t.node id).body = body) : ¬ W.inside id.index → ∀ c ∈ body.owned, W.Open c :=
  hbody ▸ h.parts id.index

/-- The tree `t'` came from `t`, and the nodes with the handles `log` were released on the way, none
of them inside; the nodes inside are still there. -/
structure Guarded (W : Shelter) (t : Tree) (log : List NodeId) (t' : Tree) : Prop where
  sheltered : t'.Sheltered W
  avoids : ∀ id ∈ log, ¬ W.inside id.index
  node : ∀ i, W.inside i → (t.slot i).Continues (t'.slot i)

namespace Guarded

theorem refl (h : t.Sheltered W) : t.Guarded W [] t :=
  ⟨h, fun _ hid => absurd hid List.not_mem_nil, fun _ _ => .refl _⟩

theorem trans (h : t.Guarded W log t') (h' : t'.Guarded W log' t'') :
    t.Guarded W (log ++ log') t'' where
  sheltered := h'.sheltered
  avoids id hid := (List.mem_append.1 hid).elim (h.avoids id) (h'.avoids id)
  node i hi := (h.node i hi).trans (h'.node i hi)

/-- A step that releases nothing, after others. -/
theorem snoc (h : t.Guarded W log t') (h' : t'.Guarded W [] t'') : t.Guarded W log t'' := by
  simpa using h.trans h'

/-- A step that releases nothing, before others. -/
theorem cons (h : t.Guarded W [] t') (h' : t'.Guarded W log t'') : t.Guarded W log t'' := by
  simpa using h.trans h'

/-- One step after another for the elements of a list. -/
theorem foldl {α : Type} {f : Tree → α → Tree} {log : Tree → α → List NodeId} (as : List α)
    (hstep : ∀ a ∈ as, ∀ t : Tree, t.Sheltered W → W.Shut (log t a) →
      t.Guarded W (log t a) (f t a))
    (t : Tree) (h : t.Sheltered W) (hshut : W.Shut (logEach f log t as)) :
    t.Guarded W (logEach f log t as) (as.foldl f t) := by
  induction as generalizing t with
  | nil => exact .refl h
  | cons a as ih =>
      have hfirst := hstep a List.mem_cons_self t h hshut.left
      exact hfirst.trans (ih (fun b hb => hstep b (List.mem_cons_of_mem a hb)) (f t a)
        hfirst.sheltered hshut.right)

/-- A change of a node, after other steps.  Inside it has to keep the parts that were there before all
of the steps. -/
theorem modify (h : t.Guarded W log t') {f : Node → Node}
    (hnode : W.inside id.index → (t.slot id.index).Continues (f (t'.slot id.index)))
    (helements : ∀ e ∈ (f (t'.slot id.index)).body.elements, W.Open e)
    (hparts : ¬ W.inside id.index → ∀ c ∈ (f (t'.slot id.index)).body.owned, W.Open c) :
    t.Guarded W log (t'.modify id f) := by
  -- a handle without a slot changes nothing
  have hslot : ∀ i, (t'.modify id f).slot i = t'.slot i ∨
      i = id.index ∧ (t'.modify id f).slot i = f (t'.slot i) := by
    intro i
    by_cases hi : i = id.index
    · subst hi
      by_cases hsize : id.index < t'.slots.size
      · exact .inr ⟨rfl, slot_modify_self hsize f⟩
      · exact .inl (by
          rw [slot_of_size_le (by simpa using hsize), slot_of_size_le (by omega)])
    · exact .inl (slot_modify_of_ne hi f)
  refine ⟨⟨fun i hi => ?_, fun i e he => ?_, fun i hi c hc => ?_⟩, h.avoids, fun i hi => ?_⟩
  · rw [size_modify]
    exact h.sheltered.occupied i hi
  · rcases hslot i with heq | ⟨rfl, heq⟩
    · exact h.sheltered.elements i e (heq ▸ he)
    · exact helements e (heq ▸ he)
  · rcases hslot i with heq | ⟨rfl, heq⟩
    · exact h.sheltered.parts i hi c (heq ▸ hc)
    · exact hparts hi c (heq ▸ hc)
  · rcases hslot i with heq | ⟨rfl, heq⟩
    · rw [heq]
      exact h.node i hi
    · rw [heq]
      exact hnode hi

/-- Other parts for a node, after other steps. -/
theorem setBody (h : t.Guarded W log t') (id : NodeId) (body : Body)
    (hbody : W.inside id.index → (t.node id).body.Continues body)
    (helements : ∀ e ∈ body.elements, W.Open e)
    (hparts : ¬ W.inside id.index → ∀ c ∈ body.owned, W.Open c) :
    t.Guarded W log (t'.setBody id body) :=
  h.modify (fun hin => ⟨(h.node _ hin).generation, (h.node _ hin).definition, hbody hin⟩) helements
    hparts

/-- An alternative is written into a choice, after other steps: the one that was there before all of
them, or a new one. -/
theorem setAlternative (h : t.Guarded W log t') (ht : t.Sheltered W)
    {alternatives : List (Option NodeId)} {current : Option Nat} {index : Nat} {c : NodeId}
    (current' : Option Nat)
    (hbody : (t.node id).body = .choice alternatives current)
    (hc : alternatives[index]?.join = some c ∨
      alternatives[index]?.join = none ∧ ¬ W.inside c.index) :
    t.Guarded W log (t'.setBody id (.choice (alternatives.set index (some c)) current')) := by
  have hparts := ht.parts_of_body hbody
  refine h.setBody id _ (fun _ => hbody ▸ .set_alternative fun x hx => ?_)
    (fun _ he => absurd he List.not_mem_nil) fun hout x hx => ?_
  · rcases hc with hc | ⟨hnone, -⟩
    · exact Option.some.inj (hx.symm.trans hc)
    · rw [hnone] at hx
      cases hx
  · rcases Body.owned_set_alternative current hx with rfl | hx
    · rcases hc with hc | ⟨-, hc⟩
      · exact hparts hout x (Body.owned_of_alternative (Option.join_eq_some_iff.1 hc))
      · exact .of_outside hc
    · exact hparts hout x hx

/-- A child is written into an optional, after other steps: the one that was there before all of
them, or a new one. -/
theorem setChild (h : t.Guarded W log t') (ht : t.Sheltered W) {child : Option NodeId}
    {present : Bool} {c : NodeId} (present' : Bool) (hbody : (t.node id).body = .optional child present)
    (hc : child = some c ∨ child = none ∧ ¬ W.inside c.index) :
    t.Guarded W log (t'.setBody id (.optional (some c) present')) := by
  have hparts := ht.parts_of_body hbody
  refine h.setBody id _ (fun _ => hbody ▸ .optional fun x hx => ?_)
    (fun _ he => absurd he List.not_mem_nil) fun hout x hx => ?_
  · rcases hc with hc | ⟨hnone, -⟩
    · exact hc.symm.trans hx
    · rw [hnone] at hx
      cases hx
  · obtain rfl := List.mem_singleton.1 hx
    rcases hc with rfl | ⟨-, hc⟩
    · exact hparts hout x (List.mem_singleton_self x)
    · exact .of_outside hc

end Guarded

/-! ### Single nodes -/

namespace Sheltered

/-- A change of a node that keeps its parts. -/
theorem modify (h : t.Sheltered W) {f : Node → Node} (hf : (t.node id).Continues (f (t.node id)))
    (hbody : (f (t.node id)).body = (t.node id).body) : t.Guarded W [] (t.modify id f) :=
  (Guarded.refl h).modify (fun _ => hf)
    (fun e he => h.elements id.index e (hbody ▸ he))
    fun hout c hc => h.parts id.index hout c (hbody ▸ hc)

theorem clearContent (h : t.Sheltered W) (id : NodeId) : t.Guarded W [] (t.clearContent id) :=
  h.modify ⟨rfl, rfl, .refl _⟩ rfl

/-- A new node comes into a slot outside. -/
theorem occupy (h : t.Sheltered W) {m : Node} (hm : m.body.owned = []) :
    t.Guarded W [] (t.occupy m).2 ∧ ¬ W.inside (t.occupy m).1.index := by
  have hnone : ∀ (body : Body), body = m.body → (∀ e ∈ body.elements, W.Open e) ∧
      ∀ c ∈ body.owned, W.Open c := by
    rintro body rfl
    rw [hm]
    refine ⟨fun e he => ?_, fun c hc => absurd hc List.not_mem_nil⟩
    exact absurd (hm ▸ Body.owned_of_elements he) List.not_mem_nil
  have hout : ¬ W.inside (t.occupy m).1.index := by
    intro hin
    obtain ⟨hsize, hnot⟩ := h.occupied _ hin
    cases hfree : t.free with
    | nil =>
        have hid : (t.occupy m).1.index = t.slots.size := by simp [Tree.occupy, hfree]
        omega
    | cons j free =>
        have hid : (t.occupy m).1.index = j := by simp [Tree.occupy, hfree]
        exact hnot (by rw [hid, hfree]; exact List.mem_cons_self)
  have hslot : ∀ i, (t.occupy m).2.slot i = t.slot i ∨
      i = (t.occupy m).1.index ∧ ((t.occupy m).2.slot i).body = m.body := by
    intro i
    cases hfree : t.free with
    | nil =>
        by_cases hi : i = t.slots.size
        · exact .inr (by simp [Tree.occupy, hfree, slot, Array.getD_eq_getD_getElem?, hi])
        · exact .inl (by
            simp [Tree.occupy, hfree, slot, Array.getD_eq_getD_getElem?, Array.getElem?_push, hi])
    | cons j free =>
        by_cases hi : i = j
        · by_cases hsize : j < t.slots.size
          · exact .inr (by simp [Tree.occupy, hfree, slot, Array.getD_eq_getD_getElem?, hi, hsize])
          · exact .inl (by simp [Tree.occupy, hfree, slot, Array.getD_eq_getD_getElem?, hi, hsize])
        · exact .inl (by
            simp [Tree.occupy, hfree, slot, Array.getD_eq_getD_getElem?,
              Array.getElem?_setIfInBounds_ne (Ne.symm hi)])
  have hsize : t.slots.size ≤ (t.occupy m).2.slots.size := (t.occupy_logged m).size_le
  have hfree : ∀ i ∈ (t.occupy m).2.free, i ∈ t.free := by
    intro i hi
    cases hfree : t.free with
    | nil => simp [Tree.occupy, hfree] at hi
    | cons j free => exact List.mem_cons_of_mem j (by simpa [Tree.occupy, hfree] using hi)
  refine ⟨⟨⟨fun i hi => ?_, fun i e he => ?_, fun i hi c hc => ?_⟩,
    fun _ hid => absurd hid List.not_mem_nil, fun i hi => ?_⟩, hout⟩
  · obtain ⟨hlt, hnot⟩ := h.occupied i hi
    exact ⟨Nat.lt_of_lt_of_le hlt hsize, fun hin => hnot (hfree i hin)⟩
  · rcases hslot i with heq | ⟨-, hbody⟩
    · exact h.elements i e (heq ▸ he)
    · exact (hnone _ hbody).1 e he
  · rcases hslot i with heq | ⟨-, hbody⟩
    · exact h.parts i hi c (heq ▸ hc)
    · exact (hnone _ hbody).2 c hc
  · rcases hslot i with heq | ⟨rfl, -⟩
    · rw [heq]
      exact .refl _
    · exact absurd hi hout

/-- A slot outside is given back. -/
theorem vacate (h : t.Sheltered W) (hid : ¬ W.inside id.index) : t.Guarded W [id] (t.vacate id) := by
  have hslot : ∀ i, (t.vacate id).slot i = t.slot i ∨
      i = id.index ∧ ((t.vacate id).slot i).body = .leaf := by
    intro i
    by_cases hi : i = id.index
    · subst hi
      by_cases hsize : id.index < t.slots.size
      · exact .inr ⟨rfl, by rw [slot_vacate_self hsize]⟩
      · exact .inl (by
          rw [slot_of_size_le (by simpa [Tree.vacate] using hsize), slot_of_size_le (by omega)])
    · exact .inl (slot_vacate_of_ne hi)
  refine ⟨⟨fun i hi => ?_, fun i e he => ?_, fun i hi c hc => ?_⟩,
    fun x hx => by rwa [List.mem_singleton.1 hx], fun i hi => ?_⟩
  · obtain ⟨hlt, hnot⟩ := h.occupied i hi
    refine ⟨by simpa [Tree.vacate] using hlt, fun hin => ?_⟩
    rcases List.mem_cons.1 hin with rfl | hin
    · exact hid hi
    · exact hnot hin
  · rcases hslot i with heq | ⟨-, hbody⟩
    · exact h.elements i e (heq ▸ he)
    · rw [hbody] at he
      cases he
  · rcases hslot i with heq | ⟨-, hbody⟩
    · exact h.parts i hi c (heq ▸ hc)
    · rw [hbody] at hc
      cases hc
  · rcases hslot i with heq | ⟨rfl, -⟩
    · rw [heq]
      exact .refl _
    · exact absurd hi hid

end Sheltered

/-! ### Released and cleared branches -/

/-- Releasing a node that is outside, or at the gate.  The latter is ruled out by the record, and so
the parts of the node are outside or at the gate, too. -/
theorem releaseNode_guarded (fuel : Nat) (h : t.Sheltered W) (hid : W.Open id)
    (hshut : W.Shut (releaseNodeLog fuel t id)) :
    t.Guarded W (releaseNodeLog fuel t id) (releaseNode fuel t id) := by
  induction fuel generalizing t id with
  | zero => exact .refl h
  | succ fuel ih =>
      rw [releaseNodeLog] at hshut ⊢
      rw [releaseNode]
      cases hlookup : t.lookup? id with
      | none => exact .refl h
      | some m =>
          rw [hlookup] at hshut
          obtain ⟨-, -, rfl⟩ := lookup?_eq_some.1 hlookup
          have hout : ¬ W.inside id.index := fun hin => hshut id List.mem_cons_self (hid hin)
          have hvacate := h.vacate hout
          have howned : ∀ c ∈ (t.node id).body.owned.reverse, W.Open c :=
            fun c hc => h.parts id.index hout c (List.mem_reverse.1 hc)
          exact hvacate.trans (.foldl _ (fun c hc t h hshut => ih h (howned c hc) hshut) _
            hvacate.sheltered fun x hx => hshut x (List.mem_cons_of_mem id hx))

theorem release_guarded {ids : List NodeId} (h : t.Sheltered W) (hids : ∀ id ∈ ids, W.Open id)
    (hshut : W.Shut (t.releaseLog ids)) : t.Guarded W (t.releaseLog ids) (t.release ids) :=
  .foldl _ (fun id hid _ h hshut => releaseNode_guarded _ h (hids id (List.mem_reverse.1 hid)) hshut)
    t h hshut

theorem resetNode_guarded (fuel : Nat) (h : t.Sheltered W)
    (hshut : W.Shut (resetNodeLog fuel t id)) :
    t.Guarded W (resetNodeLog fuel t id) (resetNode fuel t id) := by
  induction fuel generalizing t id with
  | zero => exact .refl h
  | succ fuel ih =>
      have hclear := h.clearContent id
      rw [resetNodeLog] at hshut ⊢
      rw [resetNode]
      cases hbody : (t.node id).body with
      | leaf => exact hclear
      | sequence children =>
          rw [hbody] at hshut
          exact hclear.cons (.foldl _ (fun _ _ _ h hshut => ih h hshut) _ hclear.sheltered hshut)
      | choice alternatives current =>
          rw [hbody] at hshut
          have hparts := h.parts_of_body hbody
          have hset := hclear.setBody id (.choice alternatives none)
            (fun _ => hbody ▸ .choice fun _ _ h => h) (fun _ he => absurd he List.not_mem_nil) hparts
          exact hset.cons (.foldl _ (fun _ _ _ h hshut => ih h hshut) _ hset.sheltered hshut)
      | optional child present =>
          rw [hbody] at hshut
          have hparts := h.parts_of_body hbody
          have hset := hclear.setBody id (.optional child false)
            (fun _ => hbody ▸ .optional fun _ h => h) (fun _ he => absurd he List.not_mem_nil) hparts
          exact hset.cons (.foldl _ (fun _ _ _ h hshut => ih h hshut) _ hset.sheltered hshut)
      | loop items =>
          rw [hbody] at hshut
          have hset := hclear.setBody id (.loop [])
            (fun _ => hbody ▸ .loop _ _) (fun _ he => absurd he List.not_mem_nil)
            fun _ _ hc => absurd hc List.not_mem_nil
          exact hset.cons (release_guarded hset.sheltered (h.elements_of_body hbody) hshut)
      | separated items separators =>
          rw [hbody] at hshut
          have hset := hclear.setBody id (.separated [] [])
            (fun _ => hbody ▸ .separated ..) (fun _ he => absurd he List.not_mem_nil)
            fun _ _ hc => absurd hc List.not_mem_nil
          exact hset.cons (release_guarded hset.sheltered (h.elements_of_body hbody) hshut)

theorem reset_guarded (h : t.Sheltered W) (hshut : W.Shut (t.resetLog id)) :
    t.Guarded W (t.resetLog id) (t.reset id) :=
  resetNode_guarded _ h hshut

/-! ### New nodes -/

/-- New nodes, one after the other, come into slots outside. -/
theorem allocEach_guarded {alloc : DefId → Tree → NodeId × Tree} {log : Tree → DefId → List NodeId}
    (halloc : ∀ (d : DefId) (t : Tree), t.Sheltered W → W.Shut (log t d) →
      t.Guarded W (log t d) (alloc d t).2 ∧ ¬ W.inside (alloc d t).1.index)
    (ds : List DefId) (t : Tree) (h : t.Sheltered W)
    (hshut : W.Shut (logEach (fun t d => (alloc d t).2) log t ds)) :
    t.Guarded W (logEach (fun t d => (alloc d t).2) log t ds) (allocEach alloc ds t).2 ∧
      ∀ c ∈ (allocEach alloc ds t).1, ¬ W.inside c.index := by
  induction ds generalizing t with
  | nil => exact ⟨.refl h, fun _ hc => absurd hc List.not_mem_nil⟩
  | cons d ds ih =>
      obtain ⟨hfirst, hout⟩ := halloc d t h hshut.left
      obtain ⟨hrest, houts⟩ := ih (alloc d t).2 hfirst.sheltered hshut.right
      refine ⟨hfirst.trans hrest, fun c hc => ?_⟩
      rcases List.mem_cons.1 hc with rfl | hc
      · exact hout
      · exact houts c hc

theorem allocWith_guarded {fill : DefId → NodeId → Tree → Tree}
    {log : DefId → NodeId → Tree → List NodeId}
    (hfill : ∀ d id (t : Tree), t.Sheltered W → W.Shut (log d id t) →
      t.Guarded W (log d id t) (fill d id t)) (fuel : Nat)
    (parent : Option NodeId) (d : DefId) (t : Tree) (h : t.Sheltered W)
    (hshut : W.Shut (allocWithLog fill log fuel parent d t)) :
    t.Guarded W (allocWithLog fill log fuel parent d t) (allocWith fill fuel parent d t).2 ∧
      ¬ W.inside (allocWith fill fuel parent d t).1.index := by
  induction fuel generalizing parent d t with
  | zero => exact h.occupy (Body.owned_fresh _)
  | succ fuel ih =>
      obtain ⟨hoccupy, hout⟩ := h.occupy (m := t.freshNode d parent) (Body.owned_fresh _)
      rw [allocWithLog] at hshut ⊢
      rw [allocWith]
      rcases hid : t.occupy (t.freshNode d parent) with ⟨id, t'⟩
      rw [hid] at hoccupy hout hshut
      dsimp only at hoccupy hout hshut ⊢
      cases hshape : t'.grammar.shape d with
      | sequence items =>
          rw [hshape] at hshut
          obtain ⟨hchildren, houts⟩ := allocEach_guarded
            (fun d t h hshut => ih (some id) d t h hshut) items t' hoccupy.sheltered hshut.left
          have hset := hchildren.setBody id
            (.sequence (allocEach (allocWith fill fuel (some id)) items t').1)
            (fun hin => absurd hin hout) (fun _ he => absurd he List.not_mem_nil)
            fun _ c hc => .of_outside (houts c hc)
          exact ⟨hoccupy.cons (hset.trans (hfill _ _ _ hset.sheltered hshut.right)), hout⟩
      | _ =>
          rw [hshape] at hshut
          exact ⟨hoccupy.cons (hfill _ _ _ hoccupy.sheltered hshut), hout⟩

theorem alloc_guarded (parent : NodeId) (d : DefId) (h : t.Sheltered W) :
    t.Guarded W [] (Tree.alloc parent d t).2 ∧ ¬ W.inside (Tree.alloc parent d t).1.index := by
  have hfill : ∀ (d : DefId) (id : NodeId) (t : Tree), t.Sheltered W → W.Shut [] →
      t.Guarded W [] t := fun _ _ _ h _ => .refl h
  have halloc := allocWith_guarded hfill t.allocFuel (some parent) d t h
  rw [allocWithLog_nil] at halloc
  exact halloc fun _ hid => absurd hid List.not_mem_nil

end Tree

/-! ### Assignments -/

namespace Edit

variable {W : Shelter} {e : Edit} {id : NodeId} {log : List NodeId}

theorem store_guarded (h : e.tree.Sheltered W) (id : NodeId) (content : Text) :
    e.tree.Guarded W [] (e.store id content).tree :=
  h.modify (f := fun n => { n with content := some content }) ⟨rfl, rfl, .refl _⟩ rfl

/-- The content that a node takes at the end of an assignment. -/
theorem snoc_store {t : Tree} (h : t.Guarded W log e.tree) (id : NodeId) (content : Text) :
    t.Guarded W log (e.store id content).tree :=
  h.snoc (store_guarded h.sheltered id content)

/-- The node of a part that may be missing is outside when it is new. -/
theorem orAlloc_guarded (h : e.tree.Sheltered W) (existing : Option NodeId) (parent : NodeId)
    (d : DefId) : e.tree.Guarded W [] (e.orAlloc existing parent d).2.tree ∧
      (existing = some (e.orAlloc existing parent d).1 ∨
        existing = none ∧ ¬ W.inside (e.orAlloc existing parent d).1.index) := by
  cases existing with
  | none =>
      obtain ⟨halloc, hout⟩ := alloc_guarded parent d h
      exact ⟨halloc, .inr ⟨rfl, hout⟩⟩
  | some id => exact ⟨.refl h, .inl rfl⟩

theorem clearLoser_guarded (h : e.tree.Sheltered W) (alternatives : List (Option NodeId))
    (current : Option Nat) (index : Nat)
    (hshut : W.Shut (e.clearLoserLog alternatives current index)) :
    e.tree.Guarded W (e.clearLoserLog alternatives current index)
      (e.clearLoser alternatives current index).tree := by
  cases current with
  | none => exact .refl h
  | some previous =>
      rw [clearLoserLog] at hshut ⊢
      rw [clearLoser]
      split
      · exact .refl h
      · next hne =>
          rw [if_neg hne] at hshut
          cases hloser : alternatives[previous]?.join with
          | none => exact .refl h
          | some loser =>
              rw [hloser] at hshut
              exact reset_guarded h hshut

mutual

/-- **What an assignment does to a shelter.** -/
theorem assign_guarded (text : Text) : ∀ (split : Split) (id : NodeId) (e : Edit),
    e.tree.Sheltered W → W.Shut (assignLog text split id e) →
      e.tree.Guarded W (assignLog text split id e) (assign text split id e).tree
  | .leaf span, id, e, h, _ => store_guarded h id _
  | .sequence span parts, id, e, h, hshut => by
      refine snoc_store ?_ _ _
      rw [assignLog] at hshut ⊢
      cases hbody : (e.tree.node id).body with
      | sequence children =>
          rw [hbody] at hshut
          exact assignEach_guarded text parts children e h hshut
      | _ => exact .refl h
  | .choice span index inner, id, e, h, hshut => by
      refine snoc_store ?_ _ _
      rw [assignLog] at hshut ⊢
      cases hbody : (e.tree.node id).body with
      | choice alternatives current =>
          rw [hbody] at hshut
          have hclear := clearLoser_guarded h alternatives current index hshut.left
          obtain ⟨halloc, hchild⟩ := orAlloc_guarded hclear.sheltered alternatives[index]?.join id
            (alternativeDef (e.clearLoser alternatives current index).tree id index)
          -- the alternatives are written back as they were before the other one was cleared
          have hset := (hclear.snoc halloc).setAlternative h (some index) hbody hchild
          exact hset.trans (assign_guarded text inner _ _ hset.sheltered hshut.right)
      | _ => exact .refl h
  | .absent span, id, e, h, hshut => by
      refine snoc_store ?_ _ _
      rw [assignLog] at hshut ⊢
      cases hbody : (e.tree.node id).body with
      | optional child present =>
          rw [hbody] at hshut
          have hparts := h.parts_of_body hbody
          cases child with
          | none =>
              exact (Guarded.refl h).setBody id _ (fun _ => hbody ▸ .optional fun _ h => h)
                (fun _ he => absurd he List.not_mem_nil) hparts
          | some child =>
              exact (reset_guarded h hshut).setBody id _ (fun _ => hbody ▸ .optional fun _ h => h)
                (fun _ he => absurd he List.not_mem_nil) hparts
      | _ => exact .refl h
  | .present span inner, id, e, h, hshut => by
      refine snoc_store ?_ _ _
      rw [assignLog] at hshut ⊢
      cases hbody : (e.tree.node id).body with
      | optional child present =>
          rw [hbody] at hshut
          obtain ⟨halloc, hchild⟩ := orAlloc_guarded h child id (itemDef e.tree id)
          have hset := halloc.setChild h true hbody hchild
          exact hset.cons (assign_guarded text inner _ _ hset.sheltered hshut)
      | _ => exact .refl h
  | .loop span items, id, e, h, hshut => by
      refine snoc_store ?_ _ _
      rw [assignLog] at hshut ⊢
      cases hbody : (e.tree.node id).body with
      | loop old =>
          rw [hbody] at hshut
          have hold := h.elements_of_body hbody
          have hrelease := release_guarded h hold hshut.left
          obtain ⟨hspawn, hout⟩ := spawnEach_guarded text items
            (itemDef (e.tree.release old) id) id (e.onTree fun t => t.release old)
            hrelease.sheltered hshut.right
          exact (hrelease.trans hspawn).setBody id _ (fun _ => hbody ▸ .loop _ _)
            (fun x hx => .of_outside (hout x hx)) fun _ x hx => .of_outside (hout x hx)
      | _ => exact .refl h
  | .separated span items separators, id, e, h, hshut => by
      refine snoc_store ?_ _ _
      rw [assignLog] at hshut ⊢
      cases hbody : (e.tree.node id).body with
      | separated oldItems oldSeparators =>
          rw [hbody] at hshut
          have hold := h.elements_of_body hbody
          have hshutOld := hshut.left.left
          have hitems := release_guarded h (fun x hx => hold x (List.mem_append_left _ hx))
            hshutOld.left
          have hrelease := hitems.trans (release_guarded hitems.sheltered
            (fun x hx => hold x (List.mem_append_right _ hx)) hshutOld.right)
          obtain ⟨hspawn, hout⟩ := spawnEach_guarded text items
            (itemDef ((e.tree.release oldItems).release oldSeparators) id) id
            (e.onTree fun t => (t.release oldItems).release oldSeparators)
            hrelease.sheltered hshut.left.right
          obtain ⟨hspawn', hout'⟩ := spawnEach_guarded text separators _ id _ hspawn.sheltered
            hshut.right
          have hnew : ∀ x, x ∈ _ ++ _ → W.Open x := fun x hx =>
            (List.mem_append.1 hx).elim (fun hx => .of_outside (hout x hx))
              fun hx => .of_outside (hout' x hx)
          exact ((hrelease.trans hspawn).trans hspawn').setBody id _ (fun _ => hbody ▸ .separated ..)
            hnew fun _ => hnew
      | _ => exact .refl h

theorem assignEach_guarded (text : Text) : ∀ (parts : List Split) (ids : List NodeId) (e : Edit),
    e.tree.Sheltered W → W.Shut (assignEachLog text parts ids e) →
      e.tree.Guarded W (assignEachLog text parts ids e) (assignEach text parts ids e).tree
  | [], _, _, h, _ => .refl h
  | _ :: _, [], _, h, _ => .refl h
  | part :: parts, id :: ids, e, h, hshut =>
      have hpart := assign_guarded text part id e h hshut.left
      hpart.trans (assignEach_guarded text parts ids _ hpart.sheltered hshut.right)

theorem spawnEach_guarded (text : Text) : ∀ (parts : List Split) (d : DefId) (parent : NodeId)
    (e : Edit), e.tree.Sheltered W → W.Shut (spawnEachLog text parts d parent e) →
      e.tree.Guarded W (spawnEachLog text parts d parent e)
        (spawnEach text parts d parent e).2.tree ∧
      ∀ x ∈ (spawnEach text parts d parent e).1, ¬ W.inside x.index
  | [], _, _, _, h, _ => ⟨.refl h, fun _ hx => absurd hx List.not_mem_nil⟩
  | part :: parts, d, parent, e, h, hshut => by
      obtain ⟨halloc, hout⟩ := alloc_guarded parent d h
      have hpart := assign_guarded text part (e.alloc parent d).1 (e.alloc parent d).2
        halloc.sheltered hshut.left
      obtain ⟨hrest, houts⟩ := spawnEach_guarded text parts d parent _ hpart.sheltered hshut.right
      refine ⟨halloc.cons (hpart.trans hrest), fun x hx => ?_⟩
      rcases List.mem_cons.1 hx with rfl | hx
      · exact hout
      · exact houts x hx

end

theorem spawn_guarded (text : Text) (split : Split) (d : DefId) (parent : NodeId)
    (h : e.tree.Sheltered W) (hshut : W.Shut (spawnLog text split d parent e)) :
    e.tree.Guarded W (spawnLog text split d parent e) (spawn text split d parent e).2.tree ∧
      ¬ W.inside (spawn text split d parent e).1.index := by
  obtain ⟨halloc, hout⟩ := alloc_guarded parent d h
  exact ⟨halloc.cons (assign_guarded text split (e.alloc parent d).1 (e.alloc parent d).2
    halloc.sheltered hshut), hout⟩

theorem spawnSeparator_guarded (separator : Option (DefId × Text × Split)) (parent : NodeId)
    (h : e.tree.Sheltered W) (hshut : W.Shut (spawnSeparatorLog separator parent e)) :
    e.tree.Guarded W (spawnSeparatorLog separator parent e)
        (spawnSeparator separator parent e).2.tree ∧
      ∀ s, (spawnSeparator separator parent e).1 = some s → ¬ W.inside s.index := by
  cases separator with
  | none => exact ⟨.refl h, fun _ hs => by cases hs⟩
  | some separator =>
      obtain ⟨hspawn, hout⟩ := spawn_guarded separator.2.1 separator.2.2 separator.1 parent h hshut
      exact ⟨hspawn, fun s hs => Option.some.inj hs ▸ hout⟩

/-- A change travels up to the ancestors at the end of a call. -/
theorem snoc_propagateUp {t : Tree} (h : t.Guarded W log e.tree) (id : NodeId) :
    t.Guarded W log (propagateUp id e).tree :=
  propagateUp_invariant (P := t.Guarded W log) (fun _ id w h => snoc_store h id w) h id

end Edit

/-! ### Calls -/

namespace Body

variable {body : Body} {index : Nat} {item x : NodeId} {separator : Option NodeId}

theorem continues_insertParts : body.Continues (insertParts body index item separator) := by
  cases body with
  | loop items => exact .loop _ _
  | separated items separators => exact .separated ..
  | _ => exact .refl _

theorem mem_insertIdx_or {l : List NodeId} (h : x ∈ l.insertIdx index item) : x = item ∨ x ∈ l := by
  by_cases hindex : index ≤ l.length
  · exact (List.mem_insertIdx hindex).1 h
  · rw [List.insertIdx_of_length_lt (by omega)] at h
    exact .inr h

theorem owned_insertParts (h : x ∈ (insertParts body index item separator).owned) :
    x = item ∨ separator = some x ∨ x ∈ body.owned := by
  cases body with
  | loop items => exact (mem_insertIdx_or h).imp_right .inr
  | separated items separators =>
      rcases List.mem_append.1 h with h | h
      · exact (mem_insertIdx_or h).imp_right fun h => .inr (List.mem_append_left _ h)
      · cases separator with
        | none => exact .inr (.inr (List.mem_append_right _ h))
        | some s =>
            rcases mem_insertIdx_or h with rfl | h
            · exact .inr (.inl rfl)
            · exact .inr (.inr (List.mem_append_right _ h))
  | _ => exact .inr (.inr h)

theorem elements_insertParts (h : x ∈ (insertParts body index item separator).elements) :
    x = item ∨ separator = some x ∨ x ∈ body.elements := by
  have howned := owned_insertParts (owned_of_elements h)
  cases body with
  | loop items => exact howned
  | separated items separators => exact howned
  | _ => cases h

theorem continues_removeParts : body.Continues (removeParts body index).1 := by
  cases body with
  | loop items => exact .loop _ _
  | separated items separators => exact .separated ..
  | _ => exact .refl _

theorem owned_removeParts (h : x ∈ (removeParts body index).1.owned) : x ∈ body.owned := by
  cases body with
  | loop items => exact List.mem_of_mem_eraseIdx h
  | separated items separators =>
      exact List.mem_append.2 ((List.mem_append.1 h).imp List.mem_of_mem_eraseIdx
        List.mem_of_mem_eraseIdx)
  | _ => exact h

theorem elements_removeParts (h : x ∈ (removeParts body index).1.elements) : x ∈ body.elements := by
  have howned := owned_removeParts (owned_of_elements h)
  cases body with
  | loop items => exact howned
  | separated items separators => exact howned
  | _ => cases h

/-- What is removed from a loop are elements of it. -/
theorem elements_of_removed (h : x ∈ (removeParts body index).2) : x ∈ body.elements := by
  cases body with
  | loop items => exact List.mem_of_getElem? (Option.mem_toList.1 h)
  | separated items separators =>
      exact List.mem_append.2 ((List.mem_append.1 h).imp
        (fun h => List.mem_of_getElem? (Option.mem_toList.1 h))
        fun h => List.mem_of_getElem? (Option.mem_toList.1 h))
  | _ => cases h

end Body

namespace Tree

variable {W : Shelter} {t : Tree} {n : NodeId} {d : DefId} {text : Text} {index : Nat}

theorem fillDefault_guarded (d : DefId) (id : NodeId) (t : Tree) (h : t.Sheltered W)
    (hshut : W.Shut (fillDefaultLog d id t)) :
    t.Guarded W (fillDefaultLog d id t) (fillDefault d id t) := by
  rw [fillDefaultLog] at hshut ⊢
  rw [fillDefault]
  cases hdefault : t.grammar.defaultContent? d with
  | none => exact .refl h
  | some text =>
      rw [hdefault] at hshut
      dsimp only at hshut ⊢
      cases hresult : (resolve t.grammar d text).result with
      | error err => exact .refl h
      | ok split =>
          rw [hresult] at hshut
          exact Edit.assign_guarded text split id ⟨t, []⟩ h hshut

theorem allocFilled_guarded (parent : Option NodeId) (d : DefId) (h : t.Sheltered W)
    (hshut : W.Shut (t.allocFilledLog parent d)) :
    t.Guarded W (t.allocFilledLog parent d) (t.allocFilled parent d).2 ∧
      ¬ W.inside (t.allocFilled parent d).1.index :=
  allocWith_guarded fillDefault_guarded _ parent d t h hshut

theorem create_guarded {change : Change NodeId} (hok : t.create d = .ok change)
    (h : t.Sheltered W) (hshut : W.Shut (t.allocFilledLog none d)) :
    t.Guarded W (t.allocFilledLog none d) change.tree := by
  obtain ⟨-, created, t₂, halloc, rfl⟩ := create_ok hok
  have hfilled := (allocFilled_guarded none d h hshut).1
  rwa [halloc] at hfilled

theorem setContent_guarded {change : Change Unit}
    (hok : (t.setContent n text).result = .ok change) (h : t.Sheltered W)
    (hshut : W.Shut (t.performLog (.setContent n text))) :
    t.Guarded W (t.performLog (.setContent n text)) change.tree := by
  obtain ⟨split, -, hsplit, rfl⟩ := setContent_ok hok
  rw [performLog, hsplit] at hshut ⊢
  exact Edit.snoc_propagateUp (Edit.assign_guarded text split n ⟨t, []⟩ h hshut) _

theorem insert_guarded {change : Change NodeId} (hok : t.insert n index text = .ok change)
    (h : t.Sheltered W) (hshut : W.Shut (t.insertLog n text)) :
    t.Guarded W (t.insertLog n text) change.tree := by
  obtain ⟨rule, items, split, separator, hrule, hitems, -, -, hsplit, hseparator, item, e₁, s, e₂,
    hitem, hs, rfl⟩ := insert_ok hok
  simp only [insertLog, hrule, hitems, hsplit, hseparator, hitem] at hshut ⊢
  obtain ⟨hspawn, hitemOut⟩ := Edit.spawn_guarded text split rule.item n (e := ⟨t, []⟩) h hshut.left
  rw [hitem] at hspawn hitemOut
  obtain ⟨hspawn', hout⟩ := Edit.spawnSeparator_guarded separator n hspawn.sheltered hshut.right
  rw [hs] at hspawn' hout
  have hsheltered := hspawn'.sheltered
  have hbody := (Guarded.refl hsheltered).setBody n
    (insertParts (e₂.tree.node n).body index item s) (fun _ => Body.continues_insertParts)
    (fun x hx => by
      rcases Body.elements_insertParts hx with rfl | hx | hx
      · exact .of_outside hitemOut
      · exact .of_outside (hout x hx)
      · exact hsheltered.elements n.index x hx)
    fun hn x hx => by
      rcases Body.owned_insertParts hx with rfl | hx | hx
      · exact .of_outside hitemOut
      · exact .of_outside (hout x hx)
      · exact hsheltered.parts n.index hn x hx
  exact Edit.snoc_propagateUp (Edit.snoc_store (e := e₂.onTree fun t => t.setBody n _)
    ((hspawn.trans hspawn').snoc hbody) _ _) _

theorem remove_guarded {change : Change Unit} (hok : t.remove n index = .ok change)
    (h : t.Sheltered W) (hshut : W.Shut (t.performLog (.remove n index))) :
    t.Guarded W (t.performLog (.remove n index)) change.tree := by
  obtain ⟨rule, items, -, -, -, -, rfl⟩ := remove_ok hok
  have hbody := (Guarded.refl h).setBody n (removeParts (t.node n).body index).1
    (fun _ => Body.continues_removeParts)
    (fun x hx => h.elements n.index x (Body.elements_removeParts hx))
    fun hn x hx => h.parts n.index hn x (Body.owned_removeParts hx)
  have hrelease := release_guarded hbody.sheltered
    (fun x hx => h.elements n.index x (Body.elements_of_removed hx)) hshut
  exact Edit.snoc_propagateUp (Edit.snoc_store (e := ⟨_, []⟩) (hbody.cons hrelease) _ _) _

theorem alternative_guarded {change : Change NodeId} (hok : t.alternative n index = .ok change)
    (h : t.Sheltered W) (hshut : W.Shut (t.alternativeLog n index)) :
    t.Guarded W (t.alternativeLog n index) change.tree := by
  obtain ⟨alternatives, current, -, hbody, ⟨existing, hexisting, rfl⟩ |
    ⟨hnone, created, t₂, halloc, rfl⟩⟩ := alternative_ok hok
  · simp only [alternativeLog, hbody, hexisting]
    exact .refl h
  · simp only [alternativeLog, hbody, hnone] at hshut ⊢
    obtain ⟨hfilled, hout⟩ := allocFilled_guarded (some n) (Edit.alternativeDef t n index) h hshut
    rw [halloc] at hfilled hout
    exact hfilled.setAlternative h current hbody (.inr ⟨by rw [hnone]; rfl, hout⟩)

theorem alternativeOf_guarded {change : Change NodeId} (hok : t.alternativeOf n d = .ok change)
    (h : t.Sheltered W) (hshut : W.Shut (t.performLog (.alternativeOf n d))) :
    t.Guarded W (t.performLog (.alternativeOf n d)) change.tree := by
  obtain ⟨alternatives, index, hshape, hindex, hc⟩ := alternativeOf_eq_ok.1 hok
  simp only [performLog, hshape, hindex] at hshut ⊢
  exact alternative_guarded hc h hshut

theorem optionalChild_guarded {change : Change NodeId} (hok : t.optionalChild n = .ok change)
    (h : t.Sheltered W) (hshut : W.Shut (t.performLog (.optionalChild n))) :
    t.Guarded W (t.performLog (.optionalChild n)) change.tree := by
  obtain ⟨present, -, ⟨existing, hbody, rfl⟩ | ⟨hbody, created, t₂, halloc, rfl⟩⟩ :=
    optionalChild_ok hok
  · simp only [performLog, hbody]
    exact .refl h
  · simp only [performLog, hbody] at hshut ⊢
    obtain ⟨hfilled, hout⟩ := allocFilled_guarded (some n) (Edit.itemDef t n) h hshut
    rw [halloc] at hfilled hout
    exact hfilled.setChild h present hbody (.inr ⟨rfl, hout⟩)

/-- **What a call does to a shelter.** -/
theorem perform_guarded {op : Operation} {change : Change Answer} (hok : t.perform op = .ok change)
    (h : t.Sheltered W) (hshut : W.Shut (t.performLog op)) :
    t.Guarded W (t.performLog op) change.tree := by
  cases op with
  | create d =>
      obtain ⟨c, hc, -, htree, -⟩ := Change.map_ok hok
      exact htree ▸ create_guarded hc h hshut
  | setContent n text =>
      obtain ⟨c, hc, -, htree, -⟩ := Change.map_ok hok
      exact htree ▸ setContent_guarded hc h hshut
  | insert n index text =>
      obtain ⟨c, hc, -, htree, -⟩ := Change.map_ok hok
      exact htree ▸ insert_guarded hc h hshut
  | push n text =>
      obtain ⟨c, hc, -, htree, -⟩ := Change.map_ok hok
      obtain ⟨items, -, hc⟩ := push_ok hc
      exact htree ▸ insert_guarded hc h hshut
  | remove n index =>
      obtain ⟨c, hc, -, htree, -⟩ := Change.map_ok hok
      exact htree ▸ remove_guarded hc h hshut
  | alternative n index =>
      obtain ⟨c, hc, -, htree, -⟩ := Change.map_ok hok
      exact htree ▸ alternative_guarded hc h hshut
  | alternativeOf n d =>
      obtain ⟨c, hc, -, htree, -⟩ := Change.map_ok hok
      exact htree ▸ alternativeOf_guarded hc h hshut
  | optionalChild n =>
      obtain ⟨c, hc, -, htree, -⟩ := Change.map_ok hok
      exact htree ▸ optionalChild_guarded hc h hshut
  | addListener n =>
      obtain ⟨c, hc, -, htree, -⟩ := Change.map_ok hok
      obtain ⟨node, -, hc⟩ := Except.bind_eq_ok.1 hc
      have hmodify : t.Guarded W [] (t.modify n fun m =>
          { m with listeners := m.listeners ++ [t.nextListener] }) :=
        h.modify ⟨rfl, rfl, .refl _⟩ rfl
      rw [← htree, ← Except.ok.inj hc]
      exact ⟨⟨hmodify.sheltered.occupied, hmodify.sheltered.elements, hmodify.sheltered.parts⟩,
        hmodify.avoids, hmodify.node⟩
  | removeListener n l =>
      obtain ⟨c, hc, -, htree, -⟩ := Change.map_ok hok
      obtain ⟨node, -, hc⟩ := Except.bind_eq_ok.1 hc
      rw [← htree, ← Except.ok.inj hc]
      exact h.modify (f := fun m => { m with listeners := m.listeners.filter (· != l) })
        ⟨rfl, rfl, .refl _⟩ rfl

end Tree

namespace Session

variable {W : Shelter}

theorem step_guarded (s : Session) (op : Operation) (h : s.tree.Sheltered W)
    (hshut : W.Shut (s.stepLog op)) : s.tree.Guarded W (s.stepLog op) (s.step op).tree := by
  rw [stepLog] at hshut ⊢
  rw [step]
  cases hok : s.tree.perform op with
  | error err => exact .refl h
  | ok change =>
      rw [hok] at hshut
      exact perform_guarded hok h hshut

/-- **What a run of calls does to a shelter.** -/
theorem foldl_guarded (ops : List Operation) (s : Session) (h : s.tree.Sheltered W)
    (hshut : W.Shut (logEach step stepLog s ops)) :
    s.tree.Guarded W (logEach step stepLog s ops) (ops.foldl step s).tree := by
  induction ops generalizing s with
  | nil => exact .refl h
  | cons op ops ih =>
      have hstep := s.step_guarded op h hshut.left
      exact hstep.trans (ih (s.step op) hstep.sheltered hshut.right)

end Session

end Tessera
