/-
**Groves.**

The parts of a node stand side by side, each with everything below it.  Operations work on one part
after the other, take parts away and add new ones, and at the end the node itself is brought up to
date.  While that goes on, the parts are in order and the node above them is *opened*: it is in its
place, but its list of parts and its content may lag behind.

Main definitions:

* `Tessera.Grove` — branches side by side, with all nodes in order;
* `Tessera.Regrown` — a grove took the place of another;
* `Tessera.Spared` — slots of a grove were given back, but not those of its roots;
* `Tessera.Opened` — a node above a grove, while the grove is changed;
* `Tessera.Reopened` — the parts of an opened node were changed.

Main results:

* `Tessera.Regrown.among` — **changing some branches leaves those next to them in order**;
* `Tessera.Regrown.append` — one part of a grove is changed after the other;
* `Tessera.Opened.step` — changing some parts leaves the node above them as it is;
* `Tessera.Reopened.close` — **a node that is brought up to date stands together with its parts**.
-/

import Tessera.Proofs.Tree.Sound

set_option autoImplicit false

namespace Tessera

open Branch Tessera.Tree

/-! ### Branches side by side -/

/-- Branches stand side by side below the same parent, and their nodes are in order. -/
structure Grove (t : Tree) (parent : Option NodeId) (bs : List Branch) : Prop where
  apart : t.Apart (slotsAll bs)
  stands : ∀ b ∈ bs, b.Stands t parent
  sound : ∀ id ∈ idsAll bs, t.Sound id

/-- A grove took the place of another; the slots `freed` were given back on the way. -/
structure Regrown (t t' : Tree) (parent : Option NodeId) (bs bs' : List Branch)
    (freed : List Nat) : Prop where
  rework : t.Rework t' (slotsAll bs) (slotsAll bs') freed
  grove : Grove t' parent bs'

variable {t t' t'' : Tree} {parent : Option NodeId} {id : NodeId} {b : Branch}
  {bs bs' bs'' cs cs' l r ps ps' ps'' qs qs' : List Branch} {freed freed' : List Nat}

namespace Branch

/-- Slots that are listed more often in a part are listed more often in the whole. -/
theorem count_slotsAll_append (i : Nat) :
    (slotsAll (bs ++ cs)).count i = (slotsAll bs).count i + (slotsAll cs).count i := by
  rw [slotsAll_append, List.count_append]

theorem count_slotsAll_perm (h : bs.Perm cs) (i : Nat) :
    (slotsAll bs).count i = (slotsAll cs).count i := by
  induction h with
  | nil => rfl
  | cons b _ ih => simp [ih]
  | swap b c bs => simp [Nat.add_left_comm]
  | trans _ _ ih ih' => exact ih.trans ih'

/-- Branches in the middle come first. -/
theorem middle_perm (l bs r : List Branch) : (l ++ bs ++ r).Perm (bs ++ (l ++ r)) := by
  rw [List.append_assoc]
  exact List.perm_append_comm_assoc l bs r

theorem mem_slotsAll_iff {i : Nat} : i ∈ slotsAll bs ↔ ∃ b ∈ bs, i ∈ b.slots := by
  induction bs with
  | nil => simp
  | cons b bs ih => simp [ih]

end Branch

namespace Grove

theorem nil (h : t.Apart []) : Grove t parent [] :=
  ⟨h, by simp, by simp⟩

/-- Some branches of a grove are a grove. -/
theorem mono (h : Grove t parent cs) (hsub : ∀ b ∈ bs, b ∈ cs)
    (hcount : ∀ i, (slotsAll bs).count i ≤ (slotsAll cs).count i) : Grove t parent bs where
  apart := h.apart.mono hcount
  stands b hb := h.stands b (hsub b hb)
  sound id hid := by
    obtain ⟨b, hb, hid⟩ := mem_idsAll.1 hid
    exact h.sound id (mem_idsAll.2 ⟨b, hsub b hb, hid⟩)

theorem left (h : Grove t parent (bs ++ cs)) : Grove t parent bs :=
  h.mono (fun _ hb => List.mem_append_left _ hb) fun i => by
    rw [count_slotsAll_append]
    omega

theorem right (h : Grove t parent (bs ++ cs)) : Grove t parent cs :=
  h.mono (fun _ hb => List.mem_append_right _ hb) fun i => by
    rw [count_slotsAll_append]
    omega

theorem perm (h : Grove t parent bs) (hp : bs.Perm cs) : Grove t parent cs :=
  h.mono (fun _ hb => hp.mem_iff.2 hb) fun i => Nat.le_of_eq (count_slotsAll_perm hp.symm i)

/-- Two groves whose slots are apart are one. -/
theorem append (h : Grove t parent bs) (h' : Grove t parent cs)
    (hap : t.Apart (slotsAll (bs ++ cs))) : Grove t parent (bs ++ cs) where
  apart := hap
  stands b hb := (List.mem_append.1 hb).elim (h.stands b) (h'.stands b)
  sound id hid := by
    rw [idsAll_append] at hid
    exact (List.mem_append.1 hid).elim (h.sound id) (h'.sound id)

/-- A node of a grove is in its slot. -/
theorem generation_of_mem (h : Grove t parent bs) (hid : id ∈ idsAll bs) :
    (t.node id).generation = id.generation := by
  obtain ⟨b, hb, hid⟩ := mem_idsAll.1 hid
  exact (h.stands b hb).generation_of_mem hid

/-- What a node of a grove holds belongs to the grove. -/
theorem owned_mem (h : Grove t parent bs) {p : NodeId} (hp : p ∈ idsAll bs)
    (hid : id ∈ (t.node p).body.owned) : id ∈ idsAll bs ∧ (t.node id).parent = some p := by
  obtain ⟨b, hb, hp⟩ := mem_idsAll.1 hp
  obtain ⟨hmem, hparent⟩ := (h.stands b hb).owned_mem hp hid
  exact ⟨mem_idsAll.2 ⟨b, hb, hmem⟩, hparent⟩

theorem root_mem (hroot : id ∈ bs.map Branch.root) : id ∈ idsAll bs := by
  obtain ⟨b, hb, rfl⟩ := List.mem_map.1 hroot
  exact mem_idsAll.2 ⟨b, hb, b.root_mem_ids⟩

/-- What is below a node of a grove belongs to the grove. -/
theorem below_mem (h : Grove t parent bs) (hid : id ∈ idsAll bs) {x : NodeId} (hx : t.Below id x) :
    x ∈ idsAll bs := by
  induction hx with
  | refl => exact hid
  | tail _ hc ih => exact (h.owned_mem ih hc).1

/-- A grove stands after a change elsewhere. -/
theorem frame (h : Grove t parent bs) {S S' : List Nat} (hr : t.Rework t' S S' freed)
    (hap : t.Apart (slotsAll bs ++ S)) : Grove t' parent bs where
  apart := by
    have hafter : t'.Apart (slotsAll bs ++ S') :=
      hr.apart hap (fun i => List.count_append) fun i => List.count_append
    refine hafter.mono fun i => ?_
    rw [List.count_append]
    omega
  stands b hb := by
    refine (h.stands b hb).congr hr.size_le fun i hi => .of_eq ?_
    exact hr.slot_eq hap (mem_slotsAll_iff.2 ⟨b, hb, hi⟩)
  sound id hid := by
    have hsame : ∀ x ∈ idsAll bs, t'.node x = t.node x :=
      fun x hx => hr.slot_eq hap (index_mem_slotsAll hx)
    refine (h.sound id hid).congr hr.grammar (.of_eq (hsame id hid)) (by rw [hsame id hid]) ?_
    intro c hc
    have hc := hsame c (h.owned_mem hid hc).1
    exact ⟨.of_eq hc, by rw [hc]⟩

end Grove

namespace Regrown

/-- Nothing happens. -/
theorem refl (h : Grove t parent bs) : Regrown t t parent bs bs [] where
  rework := (Rework.refl t).within (R := slotsAll bs) h.apart (by simp) (by simp)
  grove := h

/-- One change after another. -/
theorem trans (h : Regrown t t' parent bs bs' freed) (h' : Regrown t' t'' parent bs' bs'' freed') :
    Regrown t t'' parent bs bs'' (freed ++ freed') :=
  ⟨h.rework.trans h'.rework, h'.grove⟩

/-- The branches may be listed in any order. -/
theorem perm (h : Regrown t t' parent bs bs' freed) (hg : Grove t parent bs) (hp : bs.Perm cs)
    (hp' : bs'.Perm cs') : Regrown t t' parent cs cs' freed where
  rework := h.rework.congr hg.apart (count_slotsAll_perm hp.symm) (count_slotsAll_perm hp'.symm)
  grove := h.grove.perm hp'

/-- **Changing some branches leaves those next to them in order.** -/
theorem among (h : Regrown t t' parent bs bs' freed) (hg : Grove t parent (l ++ bs ++ r)) :
    Regrown t t' parent (l ++ bs ++ r) (l ++ bs' ++ r) freed := by
  have hbefore : ∀ i, (slotsAll (l ++ bs ++ r)).count i =
      (slotsAll (l ++ r)).count i + (slotsAll bs).count i := by
    intro i
    simp only [count_slotsAll_append]
    omega
  have hafter : ∀ i, (slotsAll (l ++ bs' ++ r)).count i =
      (slotsAll (l ++ r)).count i + (slotsAll bs').count i := by
    intro i
    simp only [count_slotsAll_append]
    omega
  have hrest : Grove t' parent (l ++ r) := by
    refine Grove.frame (hg.mono ?_ fun i => ?_) h.rework (hg.apart.mono fun i => ?_)
    · intro b hb
      simp only [List.mem_append] at hb ⊢
      tauto
    · rw [hbefore]
      omega
    · exact Nat.le_of_eq (by rw [hbefore, List.count_append])
  have hap : t'.Apart (slotsAll (l ++ bs' ++ r)) := h.rework.apart hg.apart hbefore hafter
  refine ⟨h.rework.within hg.apart hbefore hafter, ?_⟩
  refine (h.grove.append hrest (hap.mono fun i => ?_)).perm ?_
  · rw [hafter, count_slotsAll_append]
    omega
  · exact (List.perm_append_comm_assoc bs' l r).trans (.of_eq (List.append_assoc l bs' r).symm)

/-- A node whose slot was not given back is the same one. -/
theorem persists (h : Regrown t t' parent bs bs' freed) (hg : Grove t parent bs) {x : NodeId}
    (hx : x ∈ idsAll bs) (hkept : x.index ∉ freed) :
    (t.node x).Persists (t'.node x) ∧ (t'.node x).generation = x.generation := by
  have hmem := index_mem_slotsAll hx
  refine ⟨h.rework.persists _ (hg.apart.lt_size hmem) (hg.apart.not_free hmem) hkept, ?_⟩
  have hgeneration := h.rework.generation x.index
  rw [List.count_eq_zero.2 hkept, ← node_eq_slot, ← node_eq_slot, hg.generation_of_mem hx]
    at hgeneration
  simpa using hgeneration

/-- The branches next to those that change stay as they are. -/
theorem rest (h : Regrown t t' parent bs bs' freed) (hg : Grove t parent (bs ++ cs)) :
    Grove t' parent cs ∧ ∀ x ∈ idsAll cs, t'.node x = t.node x := by
  have hap : t.Apart (slotsAll cs ++ slotsAll bs) := hg.apart.mono fun i => by
    rw [List.count_append, count_slotsAll_append]
    omega
  exact ⟨hg.right.frame h.rework hap, fun x hx => h.rework.slot_eq hap (index_mem_slotsAll hx)⟩

/-- Some branches are changed first, and then those next to them. -/
theorem append (h : Regrown t t' parent bs bs' freed) (hg : Grove t parent (bs ++ cs))
    (h' : Regrown t' t'' parent cs cs' freed') :
    Regrown t t'' parent (bs ++ cs) (bs' ++ cs') (freed ++ freed') ∧
      ∀ x ∈ idsAll bs', t''.node x = t'.node x := by
  have hfirst : Regrown t t' parent (bs ++ cs) (bs' ++ cs) freed := h.among (l := []) hg
  have hsecond : Regrown t' t'' parent (bs' ++ cs) (bs' ++ cs') freed' := by
    have := h'.among (l := bs') (r := []) (by simpa using hfirst.grove)
    simpa using this
  refine ⟨hfirst.trans hsecond, fun x hx => ?_⟩
  refine h'.rework.slot_eq (R := slotsAll bs') ?_ (index_mem_slotsAll hx)
  simpa using hfirst.grove.apart

end Regrown

/-! ### What is given back -/

/-- Slots of the branches were given back, none of them twice and none of a root. -/
structure Spared (bs : List Branch) (freed : List Nat) : Prop where
  le : ∀ i, freed.count i ≤ (slotsAll bs).count i
  root : ∀ b ∈ bs, b.root.index ∉ freed

namespace Spared

theorem nil (bs : List Branch) : Spared bs [] :=
  ⟨by simp, by simp⟩

/-- Where there are no branches, nothing is given back. -/
theorem eq_nil (h : ∀ i, freed.count i ≤ (slotsAll []).count i) : freed = [] := by
  rw [List.eq_nil_iff_forall_not_mem]
  intro i hi
  have := h i
  have := List.count_pos_iff.2 hi
  simp_all

theorem mem_slotsAll (h : Spared bs freed) {i : Nat} (hi : i ∈ freed) : i ∈ slotsAll bs := by
  have := h.le i
  grind [List.count_eq_zero]

theorem append (h : Spared bs freed) (h' : Spared cs freed') (hap : t.Apart (slotsAll (bs ++ cs))) :
    Spared (bs ++ cs) (freed ++ freed') := by
  have hdisjoint : ∀ i ∈ slotsAll bs, i ∉ slotsAll cs := by
    have := hap.nodup
    rw [slotsAll_append] at this
    exact fun i hi => List.disjoint_of_nodup_append this hi
  refine ⟨fun i => ?_, fun b hb => ?_⟩
  · have := h.le i
    have := h'.le i
    rw [List.count_append, count_slotsAll_append]
    omega
  · intro hi
    rcases List.mem_append.1 hb with hb | hb
    · have hroot : b.root.index ∈ slotsAll bs :=
        mem_slotsAll_iff.2 ⟨b, hb, index_mem_slots b.root_mem_ids⟩
      rcases List.mem_append.1 hi with hi | hi
      · exact h.root b hb hi
      · exact hdisjoint _ hroot (h'.mem_slotsAll hi)
    · have hroot : b.root.index ∈ slotsAll cs :=
        mem_slotsAll_iff.2 ⟨b, hb, index_mem_slots b.root_mem_ids⟩
      rcases List.mem_append.1 hi with hi | hi
      · exact hdisjoint _ (h.mem_slotsAll hi) hroot
      · exact h'.root b hb hi

theorem among (h : Spared bs freed) (hap : t.Apart (slotsAll (l ++ bs ++ r))) :
    Spared (l ++ bs ++ r) freed := by
  have hleft : t.Apart (slotsAll (l ++ bs)) := hap.mono fun i => by
    simp only [count_slotsAll_append]
    omega
  have := ((nil l).append h hleft).append (nil r) hap
  simpa using this

theorem perm (h : Spared bs freed) (hp : bs.Perm cs) : Spared cs freed :=
  ⟨fun i => by rw [← count_slotsAll_perm hp]; exact h.le i,
    fun b hb => h.root b (hp.mem_iff.2 hb)⟩

end Spared

/-! ### A node above a grove -/

/-- A node is in its place above a grove; its own list of parts and its content may lag behind. -/
structure Opened (t : Tree) (parent : Option NodeId) (id : NodeId) (ps : List Branch) : Prop where
  apart : t.Apart (id.index :: slotsAll ps)
  generation : (t.node id).generation = id.generation
  parent_eq : (t.node id).parent = parent
  grove : Grove t (some id) ps

/-- The parts of an opened node were changed. -/
structure Reopened (t t' : Tree) (parent : Option NodeId) (id : NodeId) (ps ps' : List Branch)
    (freed : List Nat) : Prop where
  rework : t.Rework t' (id.index :: slotsAll ps) (id.index :: slotsAll ps') freed
  opened : Opened t' parent id ps'

namespace Opened

theorem size (h : Opened t parent id ps) : id.index < t.slots.size :=
  h.apart.lt_size List.mem_cons_self

theorem not_mem (h : Opened t parent id ps) : id.index ∉ slotsAll ps :=
  (List.nodup_cons.1 h.apart.nodup).1

/-- A node of the parts has another slot than the node above them. -/
theorem ne_of_mem (h : Opened t parent id ps) {x : NodeId} (hx : x ∈ idsAll ps) :
    x.index ≠ id.index :=
  fun heq => h.not_mem (heq ▸ index_mem_slotsAll hx)

/-- The parts may be listed in any order. -/
theorem perm (h : Opened t parent id ps) (hp : ps.Perm ps') : Opened t parent id ps' where
  apart := h.apart.mono fun i =>
    Nat.le_of_eq (by rw [List.count_cons, List.count_cons, count_slotsAll_perm hp])
  generation := h.generation
  parent_eq := h.parent_eq
  grove := h.grove.perm hp

/-- A branch can be opened at its root. -/
theorem of_grove (h : Grove t parent [.fork id ps]) :
    Opened t parent id ps ∧ (t.node id).body.owned = ps.map Branch.root ∧ t.Sound id := by
  have hap : t.Apart (id.index :: slotsAll ps) := by simpa using h.apart
  have hsound : ∀ x ∈ id :: idsAll ps, t.Sound x := by simpa using h.sound
  cases h.stands _ List.mem_cons_self with
  | fork _ hgeneration hparent howned hstands =>
      have hparts : Grove t (some id) ps :=
        ⟨hap.mono fun i => List.count_le_count_cons, hstands,
          fun x hx => hsound x (List.mem_cons_of_mem _ hx)⟩
      exact ⟨⟨hap, hgeneration, hparent, hparts⟩, howned, hsound id List.mem_cons_self⟩

/-- A node that is up to date stands together with its parts. -/
theorem close (h : Opened t parent id ps) (howned : (t.node id).body.owned = ps.map Branch.root)
    (hsound : t.Sound id) : Grove t parent [.fork id ps] where
  apart := by simpa using h.apart
  stands b hb := by
    obtain rfl := List.mem_singleton.1 hb
    exact .fork h.size h.generation h.parent_eq howned h.grove.stands
  sound x hx := by
    have hx : x ∈ id :: idsAll ps := by simpa using hx
    rcases List.mem_cons.1 hx with rfl | hx
    · exact hsound
    · exact h.grove.sound x hx

/-- Changing some parts leaves the node above them as it is. -/
theorem step (h : Opened t parent id (l ++ bs ++ r)) (hr : Regrown t t' (some id) bs bs' freed) :
    Reopened t t' parent id (l ++ bs ++ r) (l ++ bs' ++ r) freed ∧ t'.node id = t.node id := by
  have hbefore : ∀ i, (id.index :: slotsAll (l ++ bs ++ r)).count i =
      (id.index :: slotsAll (l ++ r)).count i + (slotsAll bs).count i := by
    intro i
    simp only [List.count_cons, count_slotsAll_append]
    omega
  have hafter : ∀ i, (id.index :: slotsAll (l ++ bs' ++ r)).count i =
      (id.index :: slotsAll (l ++ r)).count i + (slotsAll bs').count i := by
    intro i
    simp only [List.count_cons, count_slotsAll_append]
    omega
  have hself : t'.node id = t.node id := by
    refine hr.rework.slot_eq (R := id.index :: slotsAll (l ++ r)) (h.apart.mono fun i => ?_)
      List.mem_cons_self
    exact Nat.le_of_eq (by rw [hbefore, List.count_append])
  refine ⟨⟨hr.rework.within h.apart hbefore hafter, ?_, ?_, ?_, ?_⟩, hself⟩
  · exact hr.rework.apart h.apart hbefore hafter
  · rw [hself]
    exact h.generation
  · rw [hself]
    exact h.parent_eq
  · exact (hr.among h.grove).grove

/-- Changing all parts leaves the node above them as it is. -/
theorem step_all (h : Opened t parent id bs) (hr : Regrown t t' (some id) bs bs' freed) :
    Reopened t t' parent id bs bs' freed ∧ t'.node id = t.node id := by
  have h : Opened t parent id ([] ++ bs ++ []) := by simpa using h
  simpa using h.step hr

/-- New branches next to the parts leave the node above them as it is. -/
theorem step_append (h : Opened t parent id bs) (hr : Regrown t t' (some id) [] bs' freed) :
    Reopened t t' parent id bs (bs ++ bs') freed ∧ t'.node id = t.node id := by
  have h : Opened t parent id (bs ++ [] ++ []) := by simpa using h
  simpa using h.step hr

/-- Changing the node itself leaves its parts as they are. -/
theorem modify (h : Opened t parent id ps) {f : Node → Node}
    (hf : (t.node id).Persists (f (t.node id)))
    (hgeneration : (f (t.node id)).generation = (t.node id).generation) :
    Reopened t (t.modify id f) parent id ps ps [] ∧ (t.modify id f).node id = f (t.node id) ∧
      ∀ x ∈ idsAll ps, (t.modify id f).node x = t.node x := by
  have hself : (t.modify id f).node id = f (t.node id) := slot_modify_self h.size f
  have hone : t.Apart [id.index] := h.apart.mono fun i => by
    simp only [List.count_cons, List.count_nil]
    omega
  have hr := modify_rework hone hf hgeneration
  have hparts : ∀ x ∈ idsAll ps, (t.modify id f).node x = t.node x :=
    fun x hx => slot_modify_of_ne (h.ne_of_mem hx) f
  have hcount : ∀ i, (id.index :: slotsAll ps).count i =
      (slotsAll ps).count i + [id.index].count i := by
    intro i
    simp only [List.count_cons, List.count_nil]
    omega
  refine ⟨⟨hr.within h.apart hcount hcount, ?_, ?_, ?_, ?_⟩, hself, hparts⟩
  · exact hr.apart h.apart hcount hcount
  · rw [hself, hgeneration]
    exact h.generation
  · rw [hself, hf.parent]
    exact h.parent_eq
  · refine h.grove.frame hr (h.apart.mono fun i => ?_)
    exact Nat.le_of_eq (by rw [hcount, List.count_append])

/-- Other parts for the node leave its parts as they are. -/
theorem setBody (h : Opened t parent id ps) (body : Body) :
    Reopened t (t.setBody id body) parent id ps ps [] ∧
      (t.setBody id body).node id = { t.node id with body := body } ∧
      ∀ x ∈ idsAll ps, (t.setBody id body).node x = t.node x :=
  h.modify ⟨rfl, rfl, rfl⟩ rfl

end Opened

namespace Reopened

/-- Nothing happens. -/
theorem refl (h : Opened t parent id ps) : Reopened t t parent id ps ps [] where
  rework := (Rework.refl t).within (R := id.index :: slotsAll ps) h.apart (by simp) (by simp)
  opened := h

/-- One change after another. -/
theorem trans (h : Reopened t t' parent id ps ps' freed)
    (h' : Reopened t' t'' parent id ps' ps'' freed') :
    Reopened t t'' parent id ps ps'' (freed ++ freed') :=
  ⟨h.rework.trans h'.rework, h'.opened⟩

/-- The parts may be listed in any order. -/
theorem perm (h : Reopened t t' parent id ps ps' freed) (ho : Opened t parent id ps)
    (hp : ps.Perm qs) (hp' : ps'.Perm qs') : Reopened t t' parent id qs qs' freed where
  rework := by
    refine h.rework.congr ho.apart (fun i => ?_) fun i => ?_
    · rw [List.count_cons, List.count_cons, count_slotsAll_perm hp]
    · rw [List.count_cons, List.count_cons, count_slotsAll_perm hp']
  opened := h.opened.perm hp'

/-- A node among the parts whose slot was not given back is the same one. -/
theorem persists (h : Reopened t t' parent id ps ps' freed) (ho : Opened t parent id ps)
    {x : NodeId} (hx : x ∈ idsAll ps) (hkept : x.index ∉ freed) :
    (t.node x).Persists (t'.node x) := by
  have hmem := index_mem_slotsAll hx
  exact h.rework.persists _ (ho.grove.apart.lt_size hmem) (ho.grove.apart.not_free hmem) hkept

/-- The slot of the node is spared when only slots of its parts are given back. -/
theorem spared_fork (ho : Opened t parent id ps) (hle : ∀ i, freed.count i ≤ (slotsAll ps).count i) :
    Spared [.fork id ps] freed := by
  refine ⟨fun i => ?_, fun b hb hi => ?_⟩
  · have := hle i
    simp only [slotsAll_cons, slots_fork, slotsAll_nil, List.append_nil, List.count_cons]
    omega
  · obtain rfl := List.mem_singleton.1 hb
    have hnot : (slotsAll ps).count id.index = 0 := List.count_eq_zero.2 ho.not_mem
    have hpos := List.count_pos_iff.2 hi
    have := hle id.index
    rw [root_fork] at hpos
    omega

/-- **A node that is brought up to date stands together with its parts.** -/
theorem close (h : Reopened t t' parent id ps ps' freed)
    (howned : (t'.node id).body.owned = ps'.map Branch.root) (hsound : t'.Sound id) :
    Regrown t t' parent [.fork id ps] [.fork id ps'] freed where
  rework := by simpa using h.rework
  grove := h.opened.close howned hsound

end Reopened

end Tessera
