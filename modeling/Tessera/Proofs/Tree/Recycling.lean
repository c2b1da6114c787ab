/-
**Texts that are set again.**

A node that receives a content takes up room: elements of loops are made anew, and alternatives and
optional parts are made on first use.  When it receives the same content again, it takes up no more.
What was made on first use is there already, and the elements of a loop, which were made for the same
split, are given back right before new ones are made: as many nodes as the split shows, and nothing
beside them.  So every part of the node leaves as many slots free as it found.

Main definitions:

* `Tessera.Tree.Level` — there are as many slots as before, and as many of them are free;
* `Tessera.View.size` — how many nodes show a view;
* `Tessera.Tree.Follows` — a node shows what a split says, and keeps nothing beside what is made anew;
* `Tessera.Tree.Received` — a live node follows the split of a text.

Main results:

* `Tessera.Tree.Rework.length_add` — slots are taken, given back or added, and none is lost;
* `Tessera.Regrown.level` — **what is given back makes room for as many new nodes**;
* `Tessera.Tree.reset_level` — clearing a node that is drained releases nothing;
* `Tessera.Grove.length_of_displayAll` — nodes that keep nothing beside their contents have as many
  nodes below them as they show;
* `Tessera.Edit.levels` — **a node that follows a split again leaves the slots as they are**;
* `Tessera.Tree.Received.setContent_level` — and so does a text that is set again.
-/

import Tessera.Proofs.Tree.Sessions

set_option autoImplicit false

namespace Tessera

open Branch Tessera.Tree

variable {g : Grammar} {text : Text} {t t' t'' t₁ t₂ : Tree} {parent parent' : Option NodeId}
  {id n : NodeId} {b : Branch} {bs us ps roots : List Branch} {e : Edit}

/-! ### Slots are counted -/

/-- There are as many slots as before, and as many of them are free. -/
structure Tree.Level (t t' : Tree) : Prop where
  size : t'.slots.size = t.slots.size
  free : t'.free.length = t.free.length

namespace Tree.Level

theorem refl (t : Tree) : t.Level t := ⟨rfl, rfl⟩

theorem trans (h : t.Level t') (h' : t'.Level t'') : t.Level t'' :=
  ⟨h'.size.trans h.size, h'.free.trans h.free⟩

theorem modify (t : Tree) (id : NodeId) (f : Node → Node) : t.Level (t.modify id f) :=
  ⟨size_modify t id f, rfl⟩

theorem nodeCount (h : t.Level t') : t'.nodeCount = t.nodeCount := by
  rw [Tree.nodeCount, Tree.nodeCount, h.size, h.free]

end Tree.Level

/-- **Slots are taken, given back or added, and none is lost.** -/
theorem Tree.Rework.length_add {before after freed : List Nat} (h : t.Rework t' before after freed) :
    after.length + t'.free.length + t.slots.size =
      before.length + t.free.length + t'.slots.size := by
  have hperm : (after ++ t'.free).Perm (before ++ t.free ++
      List.range' t.slots.size (t'.slots.size - t.slots.size)) := by
    refine List.perm_iff_count.2 fun i => ?_
    have hnew : i ∈ List.range' t.slots.size (t'.slots.size - t.slots.size) ↔
        t.slots.size ≤ i ∧ i < t'.slots.size := by
      rw [List.mem_range'_1]
      omega
    have hnodup : (List.range' t.slots.size (t'.slots.size - t.slots.size)).Nodup :=
      List.nodup_range' 1
    simp only [List.count_append, hnodup.count, hnew]
    exact h.count i
  have hlength := hperm.length_eq
  simp only [List.length_append, List.length_range'] at hlength
  have := h.size_le
  omega

/-- **What is given back makes room for as many new nodes.** -/
theorem Regrown.level {freed : List Nat} (h : Regrown t t₁ parent ps [] freed)
    (hsize : t₁.slots.size = t.slots.size) (h' : Regrown t₁ t₂ parent' [] us [])
    (hlength : (idsAll us).length = (idsAll ps).length) : t.Level t₂ := by
  have hrelease := h.rework.length_add
  have hspawn := h'.rework.length_add
  simp only [slotsAll, List.length_map, hlength, idsAll_nil, List.length_nil, Nat.zero_add]
    at hrelease hspawn
  -- no slot is added before all free ones are used, and there are enough of them
  have hsame : t₂.slots.size = t₁.slots.size := by
    rcases h'.rework.reused rfl with hsame | hnone
    · exact hsame
    · have := h'.rework.size_le
      simp only [hnone, List.length_nil] at hspawn
      omega
  exact ⟨hsame.trans hsize, by omega⟩

namespace Tree

/-! ### Released and cleared nodes -/

theorem size_vacate (t : Tree) (id : NodeId) : (t.vacate id).slots.size = t.slots.size := by
  simp [vacate]

/-- Steps that add no slots add none together. -/
theorem size_foldl {f : Tree → NodeId → Tree} (hf : ∀ t id, (f t id).slots.size = t.slots.size)
    (ids : List NodeId) (t : Tree) : (ids.foldl f t).slots.size = t.slots.size := by
  induction ids generalizing t with
  | nil => rfl
  | cons id ids ih => rw [List.foldl_cons, ih, hf]

theorem size_releaseNode (fuel : Nat) (t : Tree) (id : NodeId) :
    (releaseNode fuel t id).slots.size = t.slots.size := by
  induction fuel generalizing t id with
  | zero => rfl
  | succ fuel ih =>
      rw [releaseNode]
      split
      · rfl
      · rw [size_foldl ih, size_vacate]

/-- Released nodes leave their slots behind. -/
theorem size_release (t : Tree) (ids : List NodeId) : (t.release ids).slots.size = t.slots.size :=
  size_foldl (size_releaseNode _) _ t

/-- The same slots hold the same parts. -/
structure Echoes (t t' : Tree) : Prop extends t.Level t' where
  body : ∀ i, (t'.slot i).body = (t.slot i).body

namespace Echoes

theorem refl (t : Tree) : t.Echoes t := ⟨.refl t, fun _ => rfl⟩

theorem trans (h : t.Echoes t') (h' : t'.Echoes t'') : t.Echoes t'' :=
  ⟨h.toLevel.trans h'.toLevel, fun i => (h'.body i).trans (h.body i)⟩

/-- A node changes, but not its parts. -/
theorem modify {f : Node → Node} (hf : (f (t.node id)).body = (t.node id).body) :
    t.Echoes (t.modify id f) := by
  refine ⟨.modify t id f, fun i => ?_⟩
  by_cases hi : i = id.index
  · subst hi
    by_cases hsize : id.index < t.slots.size
    · rw [slot_modify_self hsize]
      exact hf
    · rw [slot_of_size_le (by simpa using hsize), slot_of_size_le (by omega)]
  · rw [slot_modify_of_ne hi]

theorem drained (h : t.Echoes t') (hd : t.Drained id) : t'.Drained id :=
  hd.congr fun x _ => h.body x.index

/-- A node loses its content, and keeps the parts that it has. -/
theorem clear {body : Body} (hbody : (t.node id).body = body) :
    t.Echoes ((t.clearContent id).setBody id body) := by
  have hclear : t.Echoes (t.clearContent id) := .modify rfl
  exact hclear.trans (.modify (hbody.symm.trans (hclear.body id.index).symm))

/-- Several nodes are cleared that are drained. -/
theorem foldl {f : Tree → NodeId → Tree} (hf : ∀ (t : Tree) (id : NodeId), t.Drained id → t.Echoes (f t id))
    {ids : List NodeId} (hids : ∀ id ∈ ids, t.Drained id) : t.Echoes (ids.foldl f t) := by
  induction ids generalizing t with
  | nil => exact .refl t
  | cons id ids ih =>
      have hfirst := hf t id (hids id List.mem_cons_self)
      exact hfirst.trans (ih fun x hx => hfirst.drained (hids x (List.mem_cons_of_mem _ hx)))

end Echoes

theorem resetNode_echoes (fuel : Nat) (t : Tree) (id : NodeId) (hd : t.Drained id) :
    t.Echoes (resetNode fuel t id) := by
  induction fuel generalizing t id with
  | zero => exact .refl t
  | succ fuel ih =>
      obtain ⟨hidle, hswept⟩ := hd
      rw [resetNode]
      cases hbody : (t.node id).body with
      | leaf => exact .modify rfl
      | sequence children =>
          rw [hbody] at hswept
          have hclear : t.Echoes (t.clearContent id) := .modify rfl
          exact hclear.trans (.foldl ih fun c hc => hclear.drained (hswept c (List.mem_reverse.1 hc)))
      | choice alternatives current =>
          rw [hbody] at hidle
          obtain rfl : current = none := hidle
          exact .clear hbody
      | optional child present =>
          rw [hbody] at hidle hswept
          obtain rfl : present = false := hidle
          have hclear := Echoes.clear hbody
          exact hclear.trans (.foldl ih fun c hc => hclear.drained (hswept c hc))
      | loop items =>
          rw [hbody] at hidle
          obtain rfl : items = [] := hidle
          exact .clear hbody
      | separated items separators =>
          rw [hbody] at hidle
          obtain ⟨rfl, rfl⟩ : items = [] ∧ separators = [] := hidle
          exact .clear hbody

/-- **Clearing a node that is drained releases nothing.** -/
theorem reset_level (hd : t.Drained id) : t.Level (t.reset id) :=
  (resetNode_echoes _ t id hd).toLevel

end Tree

/-! ### Nodes that show a view -/

namespace View

mutual

/-- How many nodes show a view. -/
def size : View → Nat
  | node _ _ _ parts => sizeAll parts + 1

/-- How many nodes show several views. -/
def sizeAll : List View → Nat
  | [] => 0
  | v :: vs => v.size + sizeAll vs

end

theorem sizeAll_append (vs ws : List View) : sizeAll (vs ++ ws) = sizeAll vs + sizeAll ws := by
  induction vs with
  | nil => simp [sizeAll]
  | cons v vs ih => rw [List.cons_append, sizeAll, sizeAll, ih, Nat.add_assoc]

theorem sizeAll_interleave (vs ws : List View) :
    sizeAll (interleave vs ws) = sizeAll (vs ++ ws) := by
  rw [sizeAll_append]
  induction vs generalizing ws with
  | nil => simp [interleave, sizeAll]
  | cons v vs ih =>
      cases ws with
      | nil => simp [interleave, sizeAll]
      | cons w ws =>
          simp only [interleave, sizeAll, ih]
          omega

end View

/-- Items and separators in turn are the items and the separators, in another order. -/
theorem interleave_perm {α : Type} (xs ys : List α) : (interleave xs ys).Perm (xs ++ ys) := by
  induction xs generalizing ys with
  | nil => exact .refl _
  | cons x xs ih =>
      cases ys with
      | nil => rw [List.append_nil]; exact .refl _
      | cons y ys => exact .cons x ((List.Perm.cons y (ih ys)).trans List.perm_middle.symm)

namespace Body

/-- A node whose content depends on all that it keeps holds nothing beside its active parts. -/
theorem active_perm_owned {body : Body} (hnodup : body.owned.Nodup)
    (hlength : ∀ items separators, body = .separated items separators →
      separators.length ≤ items.length)
    (hkept : ∀ c ∈ body.kept, c ∈ body.active) : body.active.Perm body.owned := by
  refine (List.perm_ext_iff_of_nodup (nodup_active hnodup) hnodup).2 fun c =>
    ⟨owned_of_active, fun hc => ?_⟩
  cases body with
  | leaf | sequence children | loop items => exact hc
  | choice alternatives current => exact hkept c hc
  | optional child present => exact hkept c hc
  | separated items separators =>
      rw [active, Body.interleave_eq (hlength items separators rfl), mem_interleave_iff]
      exact List.mem_append.1 hc

end Body

/-- The nodes of branches in another order. -/
theorem Branch.length_idsAll_perm {cs : List Branch} (h : bs.Perm cs) :
    (idsAll bs).length = (idsAll cs).length := by
  induction h with
  | nil => rfl
  | cons b _ ih => simp [ih]
  | swap b c bs => simp [Nat.add_left_comm]
  | trans _ _ ih ih' => exact ih.trans ih'

/-- The parts of a trim node are trim. -/
theorem Tree.Trim.active (h : t.Trim id) {c : NodeId} (hc : c ∈ (t.node id).body.active) : t.Trim c :=
  fun x p hx => h x p (.head hc hx)

/-- The parts of a node without anything beside its content, in the order in which they make up the
content. -/
theorem Grove.exists_parts_perm (hgrove : Grove t parent [.fork id ps]) (htrim : t.Trim id) :
    ∃ qs : List Branch, (t.node id).body.active = qs.map Branch.root ∧ qs.Perm ps ∧
      Grove t (some id) qs := by
  obtain ⟨hopened, howned, hsound⟩ := Opened.of_grove hgrove
  have hnodup : (t.node id).body.owned.Nodup := by
    rw [howned]
    have hids : (idsAll ps).Nodup := .of_map _ hopened.grove.apart.nodup
    exact hids.sublist (roots_sublist ps)
  have hperm : (t.node id).body.active.Perm (ps.map Branch.root) := by
    rw [← howned]
    refine Body.active_perm_owned hnodup (fun _ _ => hsound.formed.length_separators) fun c hc => ?_
    by_contra hnot
    exact htrim id c .refl ⟨hc, hnot⟩
  obtain ⟨qs, hqs, hpermqs⟩ : ∃ qs : List Branch,
      (t.node id).body.active = qs.map Branch.root ∧ qs.Perm ps := by
    have := congrFun (congrFun (List.eq_map_comp_perm Branch.root) (t.node id).body.active) ps
    exact this.mpr hperm
  exact ⟨qs, hqs, hpermqs, hopened.grove.perm hpermqs.symm⟩

/-- **Nodes that keep nothing beside their contents have as many nodes below them as they show.** -/
theorem Grove.length_of_displayAll : ∀ {vs : List View} {bs : List Branch} {parent : Option NodeId},
    Grove t parent bs → t.DisplayAll vs (bs.map Branch.root) → (∀ c ∈ bs.map Branch.root, t.Trim c) →
      (idsAll bs).length = View.sizeAll vs
  | [], [], _, _, _, _ => rfl
  | .node _ _ _ vs :: ws, .fork id ps :: bs, _, hgrove, ⟨⟨_, _, _, hvs⟩, hws⟩, htrim => by
      have hgrove : Grove t _ ([.fork id ps] ++ bs) := hgrove
      have htop : t.Trim id := htrim _ List.mem_cons_self
      obtain ⟨qs, hqs, hperm, hparts⟩ := Grove.exists_parts_perm hgrove.left htop
      rw [root_fork, hqs] at hvs
      have hbelow := Grove.length_of_displayAll hparts hvs fun c hc => htop.active (hqs ▸ hc)
      have hrest := Grove.length_of_displayAll hgrove.right hws
        fun c hc => htrim c (List.mem_cons_of_mem _ hc)
      rw [idsAll_cons, List.length_append, ids_fork, List.length_cons, ← length_idsAll_perm hperm,
        hbelow, hrest, View.sizeAll, View.size]

/-! ### Following a split again -/

/-- The node shows what the split says, and what is made anew when it follows the split again is there
once and has nothing beside it. -/
structure Tree.Follows (t : Tree) (g : Grammar) (text : Text) (split : Split) (id : NodeId) : Prop where
  displays : t.Displays (split.view g text (t.node id).definition) id
  compact : t.AllCompact [id]

/-- What holds of all nodes that contribute to a content holds of the node and below its parts. -/
theorem Tree.AllCompact.cases (h : t.AllCompact [id]) :
    t.Compact id ∧ t.AllCompact (t.node id).body.active :=
  ⟨h id (by simp) id .refl, fun _ hc x hx => h id (by simp) x (.head hc hx)⟩

/-- A part that is there already stays the one it is. -/
theorem Tree.setBody_self {body : Body} (h : (t.node id).body = body) : t.setBody id body = t := by
  subst h
  obtain ⟨g, slots, free, l⟩ := t
  simp only [setBody, modify, node, Array.getD_eq_getD_getElem?, Tree.mk.injEq, true_and, and_true]
  by_cases hsize : id.index < slots.size
  · simp only [Array.setIfInBounds, hsize, Array.getElem?_eq_getElem, Option.getD_some, dite_true]
    exact Array.set_getElem_self hsize
  · simp [Array.setIfInBounds, hsize]

namespace Edit

/-- Following the split again leaves the slots as they are. -/
def Levels (g : Grammar) (text : Text) (split : Split) : Prop :=
  ∀ (e : Edit) (parent : Option NodeId) (b : Branch), e.tree.grammar = g → Grove e.tree parent [b] →
    split.Fits g text (e.tree.node b.root).definition → e.tree.Follows g text split b.root →
    e.tree.Level (assign text split b.root e).tree

/-- Following the parts of a split again leaves the slots as they are. -/
def LevelsEach (g : Grammar) (text : Text) (parts : List Split) : Prop :=
  ∀ (e : Edit) (parent : Option NodeId) (bs : List Branch), e.tree.grammar = g →
    Grove e.tree parent bs →
    Split.FitAll g text parts (bs.map fun b => (e.tree.node b.root).definition) →
    e.tree.DisplayAll (Split.viewAll g text parts (bs.map fun b => (e.tree.node b.root).definition))
      (bs.map Branch.root) →
    e.tree.AllCompact (bs.map Branch.root) →
    e.tree.Level (assignEach text parts (bs.map Branch.root) e).tree

/-- A node that takes a content leaves the slots as they are. -/
theorem store_level {e' : Edit} (h : e.tree.Level e'.tree) (id : NodeId) (w : Text) :
    e.tree.Level (e'.store id w).tree :=
  ⟨(size_modify _ _ _).trans h.size, h.free⟩

/-- A node that takes other parts leaves the slots as they are. -/
theorem setBody_level {e' : Edit} (h : e.tree.Level e'.tree) (id : NodeId) (body : Body) :
    e.tree.Level (e'.onTree fun t => t.setBody id body).tree :=
  ⟨(size_modify _ _ _).trans h.size, h.free⟩

theorem level_leaf {span : Span} : Levels g text (.leaf span) :=
  fun e _ _ _ _ _ _ => store_level (.refl e.tree) _ _

theorem level_sequence {span : Span} {parts : List Split} (hparts : LevelsEach g text parts) :
    Levels g text (.sequence span parts) := by
  rintro e parent ⟨id, ps⟩ hg hgrove hfits ⟨⟨-, -, -, hviews⟩, hcompact⟩
  obtain ⟨hopened, howned, hsound⟩ := Opened.of_grove hgrove
  rw [root_fork] at hfits hviews hcompact ⊢
  rw [Split.Fits] at hfits
  obtain ⟨-, -, items, hrule, hall⟩ := hfits
  have hshape : e.tree.shapeOf id = .sequence items := by
    rw [shapeOf, hg]
    exact hrule
  obtain ⟨children, hbody, hdefs⟩ := (formed_sequence_iff hshape).1 hsound.formed
  obtain rfl : children = ps.map Branch.root := by
    rw [hbody] at howned
    exact howned
  have hitems : items = ps.map fun b => (e.tree.node b.root).definition := by
    rw [← hdefs, List.map_map]
    rfl
  have hactive := hcompact.cases.2
  rw [hbody] at hviews hactive
  rw [hrule, Rule.references, hitems] at hviews
  rw [hitems] at hall
  simp only [assign, hbody]
  exact store_level (hparts e (some id) ps hg hopened.grove hall hviews hactive) _ _

/-- A part that follows the inner split again. -/
theorem level_part {inner : Split} {child : NodeId} {d : DefId} (hinner : Levels g text inner)
    (hg : e.tree.grammar = g) (hopened : Opened e.tree parent id ps)
    (hchild : child ∈ ps.map Branch.root) (hd : (e.tree.node child).definition = d)
    (hfit : inner.Fits g text d) (hview : e.tree.Displays (inner.view g text d) child)
    (hcompact : e.tree.AllCompact [child]) : e.tree.Level (assign text inner child e).tree := by
  obtain ⟨l, u, r, rfl, rfl⟩ := exists_part hchild
  subst hd
  have hgrove : Grove e.tree (some id) (l ++ [u] ++ r) := by simpa using hopened.grove
  exact hinner e (some id) u hg hgrove.left.right hfit ⟨hview, hcompact⟩

theorem level_choice {span : Span} {index : Nat} {inner : Split} (hinner : Levels g text inner) :
    Levels g text (.choice span index inner) := by
  rintro e parent ⟨id, ps⟩ hg hgrove hfits ⟨⟨-, -, hselection, hviews⟩, hcompact⟩
  obtain ⟨hopened, howned, hsound⟩ := Opened.of_grove hgrove
  rw [root_fork] at hfits hselection hviews hcompact ⊢
  rw [Split.Fits] at hfits
  obtain ⟨-, -, defs, d, hrule, hd, hfit⟩ := hfits
  have hshape : e.tree.shapeOf id = .choice defs := by
    rw [shapeOf, hg]
    exact hrule
  obtain ⟨alternatives, current, hbody, -, hdefs, -⟩ := (formed_choice_iff hshape).1 hsound.formed
  rw [hbody, Body.selection] at hselection
  obtain rfl := Selection.choice.inj hselection
  have hactive := hcompact.cases.2
  rw [hbody, Body.active] at hviews hactive
  -- the alternative is current already
  cases hcurrent : Body.currentOf alternatives (some index) with
  | none => rw [hcurrent] at hviews; exact hviews.elim
  | some child =>
      rw [hcurrent] at hviews hactive
      have hget : alternatives[index]? = some (some child) := Option.join_eq_some_iff.1 hcurrent
      have hdef : (e.tree.node child).definition = d := by
        have := hdefs index child hget
        rw [hd] at this
        exact (Option.some.inj this).symm
      have hreference : (g.shape (e.tree.node id).definition).references.getD index 0 = d := by
        rw [hrule, Rule.references, List.getD_eq_getElem?_getD, hd]
        rfl
      rw [hreference] at hviews
      have hchild : child ∈ ps.map Branch.root := by
        rw [← howned, hbody]
        exact List.mem_filterMap.2 ⟨some child, List.mem_of_getElem? hget, rfl⟩
      have hset : alternatives.set index (some child) = alternatives :=
        List.ext_getElem? fun i => by grind
      have hassign : assign text (.choice span index inner) id e =
          (assign text inner child e).store id (slice text span.start span.stop) := by
        simp only [assign, hbody, clearLoser, if_pos, hget, Option.join_some, orAlloc, hset, onTree,
          setBody_self hbody]
      rw [hassign]
      exact store_level (level_part hinner hg hopened hchild hdef hfit hviews.1 hactive) _ _

theorem level_present {span : Span} {inner : Split} (hinner : Levels g text inner) :
    Levels g text (.present span inner) := by
  rintro e parent ⟨id, ps⟩ hg hgrove hfits ⟨⟨-, -, hselection, hviews⟩, hcompact⟩
  obtain ⟨hopened, howned, hsound⟩ := Opened.of_grove hgrove
  rw [root_fork] at hfits hselection hviews hcompact ⊢
  rw [Split.Fits] at hfits
  obtain ⟨-, -, -, item, quantifier, hrule, hfit⟩ := hfits
  have hshape : e.tree.shapeOf id = .optional item quantifier := by
    rw [shapeOf, hg]
    exact hrule
  obtain ⟨existing, present, hbody, hdef, -⟩ := (formed_optional_iff hshape).1 hsound.formed
  rw [hbody, Body.selection] at hselection
  obtain rfl := Selection.optional.inj hselection
  have hactive := hcompact.cases.2
  rw [hbody, Body.active, if_pos rfl] at hviews hactive
  -- the part is there already
  cases existing with
  | none => exact hviews.elim
  | some child =>
      rw [hrule] at hviews
      have hchild : child ∈ ps.map Branch.root := by
        rw [← howned, hbody]
        exact List.mem_singleton_self child
      have hassign : assign text (.present span inner) id e =
          (assign text inner child e).store id (slice text span.start span.stop) := by
        simp only [assign, hbody, orAlloc, onTree, setBody_self hbody]
      rw [hassign]
      exact store_level (level_part hinner hg hopened hchild (hdef child rfl) hfit hviews.1 hactive) _ _

theorem level_absent {span : Span} : Levels g text (.absent span) := by
  rintro e parent ⟨id, ps⟩ hg hgrove hfits ⟨⟨-, -, hselection, -⟩, hcompact⟩
  obtain ⟨-, -, hsound⟩ := Opened.of_grove hgrove
  rw [root_fork] at hfits hselection hcompact ⊢
  rw [Split.Fits] at hfits
  obtain ⟨-, -, item, quantifier, hrule⟩ := hfits
  have hshape : e.tree.shapeOf id = .optional item quantifier := by
    rw [shapeOf, hg]
    exact hrule
  obtain ⟨existing, present, hbody, -⟩ := (formed_optional_iff hshape).1 hsound.formed
  rw [hbody, Body.selection] at hselection
  obtain rfl := Selection.optional.inj hselection
  have hdrained := hcompact.cases.1.absent
  rw [hbody] at hdrained
  simp only [assign, hbody]
  cases existing with
  | none => exact store_level (setBody_level (.refl e.tree) _ _) _ _
  | some child =>
      have hreset : e.tree.Level (e.onTree fun t => t.reset child).tree :=
        reset_level (hdrained child (List.mem_singleton_self child))
      exact store_level (setBody_level hreset _ _) _ _

/-- Elements that were made for a split are given back, and as many new ones are made for the same
split. -/
theorem level_elements {freed : List Nat} {e₁ e₂ : Edit} {views : List View} {texts : List Text}
    {ns : List Notice} (hold : Grove e.tree (some id) ps)
    (hviews : e.tree.DisplayAll views (ps.map Branch.root))
    (htrim : ∀ c ∈ ps.map Branch.root, e.tree.Trim c)
    (hrelease : Regrown e.tree e₁.tree (some id) ps [] freed)
    (hsize : e₁.tree.slots.size = e.tree.slots.size)
    (hmakes : e₁.Makes e₂ (some id) [] us texts [] ns)
    (hviews' : (idsAll us).length = View.sizeAll views) : e.tree.Level e₂.tree := by
  refine hrelease.level hsize hmakes.regrown ?_
  rw [hviews', Grove.length_of_displayAll hold hviews htrim]

theorem level_loop {span : Span} {items : List Split} (hvalid : g.Valid) (hrank : g.Ranked) :
    Levels g text (.loop span items) := by
  rintro e parent ⟨id, ps⟩ hg hgrove hfits ⟨⟨-, -, -, hviews⟩, hcompact⟩
  obtain ⟨hopened, howned, hsound⟩ := Opened.of_grove hgrove
  rw [root_fork] at hfits hviews hcompact ⊢
  rw [Split.Fits] at hfits
  obtain ⟨-, -, item, repetition, hrule, -, heach⟩ := hfits
  have hshape : e.tree.shapeOf id = .loop item repetition := by
    rw [shapeOf, hg]
    exact hrule
  obtain ⟨old, hbody, -⟩ := (formed_loop_iff hshape).1 hsound.formed
  obtain rfl : old = ps.map Branch.root := by
    rw [hbody] at howned
    exact howned
  have htrim := hcompact.cases.1.elements
  rw [hbody] at hviews htrim
  rw [hrule] at hviews
  obtain ⟨freed, hrelease, -⟩ := release_regrown hopened.grove
  obtain ⟨e₁, he₁⟩ : ∃ e₁, e₁ = e.onTree fun t => t.release (ps.map Branch.root) := ⟨_, rfl⟩
  replace hrelease : Regrown e.tree e₁.tree (some id) ps [] freed := he₁ ▸ hrelease
  have hsize : e₁.tree.slots.size = e.tree.slots.size := he₁ ▸ size_release e.tree _
  obtain ⟨hre, hself⟩ := hopened.step_all hrelease
  have hitem : itemDef e₁.tree id = item := by
    rw [itemDef, shapeOf, hself, hre.rework.grammar, ← shapeOf, hshape]
  rcases hspawn : spawnEach text items item id e₁ with ⟨ids, e₂⟩
  obtain ⟨us, ns, hroots, hmakes, -, hdisplays⟩ := spawnsEach hvalid hrank items e₁ e₂ id item ids
    (hre.rework.grammar.trans hg) (hre.opened.grove.apart.mono (by simp)) heach hspawn
  have hlength := Grove.length_of_displayAll hmakes.regrown.grove (hroots ▸ hdisplays)
    fun c hc => trim_of_discards hmakes.discards hc
  simp only [assign, hbody, ← he₁, hitem, hspawn]
  exact store_level (setBody_level
    (level_elements hopened.grove hviews htrim hrelease hsize hmakes hlength) _ _) _ _

theorem level_separated {span : Span} {items separators : List Split} (hvalid : g.Valid)
    (hrank : g.Ranked) : Levels g text (.separated span items separators) := by
  rintro e parent ⟨id, ps⟩ hg hgrove hfits ⟨⟨-, -, -, hviews⟩, hcompact⟩
  obtain ⟨hopened, howned, hsound⟩ := Opened.of_grove hgrove
  rw [root_fork] at hfits hviews hcompact ⊢
  rw [Split.Fits] at hfits
  obtain ⟨-, -, item, separator, default, repetition, hrule, -, -, heach, heach'⟩ := hfits
  have hshape : e.tree.shapeOf id = .separated item separator default repetition := by
    rw [shapeOf, hg]
    exact hrule
  obtain ⟨oldItems, oldSeparators, hbody, -, -, hcounts⟩ :=
    (formed_separated_iff hshape).1 hsound.formed
  have hparts : oldItems ++ oldSeparators = ps.map Branch.root := by
    rw [hbody] at howned
    exact howned
  obtain ⟨is, ss, rfl, rfl, rfl⟩ := List.map_eq_append_iff.1 hparts.symm
  have htrim := hcompact.cases.1.elements
  rw [hbody] at hviews htrim
  rw [hrule, Body.active, Body.interleave_eq (by omega), ← map_interleave] at hviews
  rw [Body.elements, ← List.map_append] at htrim
  -- the elements in the order in which they make up the content
  have hperm : (interleave is ss).Perm (is ++ ss) := interleave_perm is ss
  have hold := hopened.grove.perm hperm.symm
  obtain ⟨freed, hrelease, -⟩ := release_release_regrown hopened.grove
  obtain ⟨e₁, he₁⟩ : ∃ e₁, e₁ = e.onTree fun t =>
      (t.release (is.map Branch.root)).release (ss.map Branch.root) := ⟨_, rfl⟩
  replace hrelease : Regrown e.tree e₁.tree (some id) (is ++ ss) [] freed := he₁ ▸ hrelease
  have hsize : e₁.tree.slots.size = e.tree.slots.size :=
    he₁ ▸ (size_release (e.tree.release _) _).trans (size_release e.tree _)
  obtain ⟨hre, hself⟩ := hopened.step_all hrelease
  have hshape₁ : e₁.tree.shapeOf id = .separated item separator default repetition := by
    rw [← hshape, shapeOf, shapeOf, hself, hre.rework.grammar]
  rcases hspawn : spawnEach text items item id e₁ with ⟨ids, e₂⟩
  obtain ⟨us, ns, hroots, hmakes, -, hdisplays⟩ := spawnsEach hvalid hrank items e₁ e₂ id item ids
    (hre.rework.grammar.trans hg) (hre.opened.grove.apart.mono (by simp)) heach hspawn
  obtain ⟨hre₂, hself₂⟩ := hre.opened.step_all hmakes.regrown
  have hseparator : separatorDef e₂.tree id = separator := by
    rw [separatorDef, shapeOf, hself₂, hre₂.rework.grammar, ← shapeOf, hshape₁]
  rcases hspawn' : spawnEach text separators separator id e₂ with ⟨ids', e₃⟩
  obtain ⟨vs, ns', hroots', hmakes', -, hdisplays'⟩ := spawnsEach hvalid hrank separators e₂ e₃ id
    separator ids' (hre₂.rework.grammar.trans (hre.rework.grammar.trans hg))
    (hre₂.opened.grove.apart.mono (by simp)) heach' hspawn'
  have hempty : Grove e₁.tree (some id) ([] ++ []) := .nil (hre.opened.grove.apart.mono (by simp))
  have hall := hmakes.append hempty hmakes'
  have hlength := Grove.length_of_displayAll hmakes.regrown.grove (hroots ▸ hdisplays)
    fun c hc => trim_of_discards hmakes.discards hc
  have hlength' := Grove.length_of_displayAll hmakes'.regrown.grove (hroots' ▸ hdisplays')
    fun c hc => trim_of_discards hmakes'.discards hc
  have hitem : itemDef e₁.tree id = item := by rw [itemDef, hshape₁]
  simp only [assign, hbody, ← he₁, hitem, hspawn, hseparator, hspawn']
  refine store_level (setBody_level (level_elements hold hviews (fun c hc => ?_)
    (hrelease.perm hopened.grove hperm.symm (.refl _)) hsize hall ?_) _ _) _ _
  · refine htrim c ?_
    simpa [map_interleave, mem_interleave_iff] using hc
  · rw [idsAll_append, List.length_append, hlength, hlength', View.sizeAll_interleave,
      View.sizeAll_append]
    rfl

theorem levelsEach_nil : LevelsEach g text [] := by
  rintro e parent bs - - - - -
  exact .refl e.tree

theorem levelsEach_cons {part : Split} {parts : List Split} (hvalid : g.Valid) (hrank : g.Ranked)
    (hpart : Levels g text part) (hparts : LevelsEach g text parts) :
    LevelsEach g text (part :: parts) := by
  rintro e parent bs hg hgrove ⟨d, ds, hds, hfit, hall⟩ hviews hcompact
  obtain ⟨b, bs, rfl, rfl, rfl⟩ := List.map_eq_cons_iff.1 hds
  have hgrove : Grove e.tree parent ([b] ++ bs) := hgrove
  obtain ⟨hview, hviews⟩ := hviews
  have hfirst := hpart e parent b hg hgrove.left hfit
    ⟨hview, fun c hc => hcompact c (by simpa using .inl (List.mem_singleton.1 hc))⟩
  obtain ⟨b', freed, ns, -, hmakes, -⟩ := assigns hvalid hrank part e parent b hg hgrove.left hfit
  -- the first part leaves those after it alone
  obtain ⟨hrest, hsame⟩ := hmakes.regrown.rest hgrove
  have hdefs : bs.map (fun c => ((assign text part b.root e).tree.node c.root).definition) =
      bs.map fun c => (e.tree.node c.root).definition := by
    refine List.map_congr_left fun c hc => ?_
    rw [hsame c.root (Grove.root_mem (List.mem_map_of_mem hc))]
  have hcompact' : e.tree.AllCompact (bs.map Branch.root) :=
    fun c hc => hcompact c (List.mem_cons_of_mem _ hc)
  refine hfirst.trans (hparts _ parent bs (hmakes.regrown.rework.grammar.trans hg) hrest
    (by rwa [hdefs]) ?_ (hcompact'.frame hgrove.right hsame))
  rw [hdefs]
  exact hgrove.right.displayAll_congr hsame (fun c hc => Grove.root_mem hc) hviews

mutual

/-- **A node that follows a split again leaves the slots as they are.** -/
theorem levels (hvalid : g.Valid) (hrank : g.Ranked) : ∀ split : Split, Levels g text split
  | .leaf _ => level_leaf
  | .sequence _ parts => level_sequence (levelsEach hvalid hrank parts)
  | .choice _ _ inner => level_choice (levels hvalid hrank inner)
  | .absent _ => level_absent
  | .present _ inner => level_present (levels hvalid hrank inner)
  | .loop _ _ => level_loop hvalid hrank
  | .separated _ _ _ => level_separated hvalid hrank

theorem levelsEach (hvalid : g.Valid) (hrank : g.Ranked) :
    ∀ parts : List Split, LevelsEach g text parts
  | [] => levelsEach_nil
  | part :: parts =>
      levelsEach_cons hvalid hrank (levels hvalid hrank part) (levelsEach hvalid hrank parts)

end

/-- Carrying a change up leaves the slots as they are. -/
theorem propagateUp_level (id : NodeId) (e : Edit) : e.tree.Level (propagateUp id e).tree :=
  propagateUp_invariant (P := e.tree.Level) (fun _ _ _ h => store_level h _ _) (.refl e.tree) id

end Edit

/-! ### Setting a text again -/

/-- A live node follows the split of a text. -/
structure Tree.Received (t : Tree) (g : Grammar) (n : NodeId) (text : Text) : Prop where
  grammar : t.grammar = g
  garden : ∃ roots, Garden t roots
  live : t.Live n
  follows : ∃ split, (resolve g (t.node n).definition text).result = .ok split ∧
    t.Follows g text split n

/-- A node that received a text follows the split of the text. -/
theorem Garden.received_setContent {change : Change Unit} (h : Garden t roots)
    (hvalid : t.grammar.Valid) (hrank : t.grammar.Ranked) (hn : t.Live n)
    (hok : (t.setContent n text).result = .ok change) : change.tree.Received t.grammar n text := by
  obtain ⟨t₁, roots', ps, ns, hrevised, -, -, -, hcompact, split, hsplit, hdisplays⟩ :=
    h.setContent hvalid hrank (h.live_iff.1 hn) hok
  obtain ⟨hgarden, -, hgrammar, -⟩ := hrevised.garden
  obtain ⟨c, c', freed, rfl, hedited⟩ := hrevised.edited
  have hlive : c.root ∈ idsAll roots' :=
    (hedited.mem_iff _).2 (.inl (hedited.root ▸ c'.root_mem_ids))
  have hdefinition : (change.tree.node c.root).definition = (t.node c.root).definition := by
    cases split <;> exact hdisplays.1
  exact ⟨hgrammar, ⟨roots', hgarden⟩, hgarden.live_iff.2 hlive, split, by rwa [hdefinition],
    by rwa [hdefinition], hcompact⟩

/-- **A text that is set again leaves the slots as they are**, and it can be set once more. -/
theorem Tree.Received.setContent_level (h : t.Received g n text) (hvalid : g.Valid) (hrank : g.Ranked) :
    ∃ change, (t.setContent n text).result = .ok change ∧ change.tree.Received g n text ∧
      t.Level change.tree := by
  obtain ⟨rfl, ⟨roots, hgarden⟩, hlive, split, hsplit, hfollows⟩ := h
  have hok := setContent_of_split (lookup?_eq_some.2 ⟨hlive.size, hlive.generation, rfl⟩) hsplit
  refine ⟨_, hok, hgarden.received_setContent hvalid hrank hlive hok, ?_⟩
  obtain ⟨b, c, hb, hin, rfl, hc⟩ := hgarden.exists_branch (hgarden.live_iff.1 hlive)
  have hassign := Edit.levels hvalid hrank split ⟨t, []⟩ (t.node c.root).parent c rfl
    (hgarden.grove_of_inside hb hin hc) (split_fits hvalid hsplit).1 hfollows
  exact hassign.trans (Edit.propagateUp_level c.root _)

/-- However often a text is set again. -/
theorem Session.level_replicate {s : Session} (h : s.tree.Received g n text) (hvalid : g.Valid)
    (hrank : g.Ranked) (k : Nat) :
    ((List.replicate k (.setContent n text)).foldl step s).tree.Received g n text ∧
      s.tree.Level ((List.replicate k (.setContent n text)).foldl step s).tree := by
  induction k generalizing s with
  | zero => exact ⟨h, .refl s.tree⟩
  | succ k ih =>
      obtain ⟨change, hok, hreceived, hlevel⟩ := h.setContent_level hvalid hrank
      have hstep : (s.step (.setContent n text)).tree = change.tree := by
        rw [Session.step, Tree.perform, hok]
        rfl
      obtain ⟨hagain, hsame⟩ := ih (s := s.step (.setContent n text)) (hstep ▸ hreceived)
      exact ⟨hagain, hlevel.trans (hstep ▸ hsame)⟩

end Tessera
