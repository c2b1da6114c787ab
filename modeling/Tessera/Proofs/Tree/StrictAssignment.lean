/-
**Assigning a split without faults.**

A split that is assigned to a node comes from the definition of that node, and so do the parts of
the node; both are therefore of the kind that the rule of the definition asks for, with as many
parts.  The same holds again for every part and its own split, all the way down, because the parts
that are there have the definitions that stand in their places, and new parts are made from them.

Main definitions:

* `Tessera.Strict.AssignsAlike` — what is to be shown of a split.

Main results:

* `Tessera.Strict.assign_eq` — **a split is assigned without a fault**;
* `Tessera.Strict.allocFilled_eq` — **a new node is filled with its default without a fault**.
-/

import Tessera.Proofs.Tree.StrictGrowth

set_option autoImplicit false

namespace Tessera

open Branch Tessera.Tree

namespace Strict

variable {g : Grammar} {text : Text} {parent : Option NodeId} {id : NodeId} {b : Branch}
  {bs ps cs l r l' r' : List Branch} {e e' : Edit} {span : Span} {d : DefId}

/-! ### Single steps -/

theorem onTree_reset_eq (h : Grove e.tree parent [b]) :
    onTree e (fun t => reset t b.root) = some (e.onTree fun t => t.reset b.root) := by
  rw [onTree, reset_eq h]
  rfl

theorem onTree_release_eq (h : Grove e.tree parent bs) :
    onTree e (fun t => release t (bs.map Branch.root)) =
      some (e.onTree fun t => t.release (bs.map Branch.root)) := by
  rw [onTree, release_eq h]
  rfl

theorem onTree_setBody_eq (hsize : id.index < e.tree.slots.size) (body : Body) :
    onTree e (fun t => setBody t id body) = some (e.onTree fun t => t.setBody id body) := by
  rw [onTree, setBody_eq hsize]
  rfl

/-- The text of a range between boundaries is stored in a node that is there. -/
theorem store_eq (hsize : id.index < e.tree.slots.size)
    (hrange : IsRange text span.start span.stop) :
    store text span id e = some (e.store id (slice text span.start span.stop)) := by
  rw [store, node_eq hsize, hrange.slice?]
  rfl

/-- Changing the parts of a node makes no slot disappear. -/
theorem size_setBody (t : Tree) (id : NodeId) (body : Body) :
    (t.setBody id body).slots.size = t.slots.size := by
  simp [Tree.setBody, Tree.modify]

/-- A node without a content is made without a fault. -/
theorem alloc_eq (hg : g.Tabled) (hrank : g.Ranked) (ht : e.tree.grammar = g)
    (hap : e.tree.Apart []) (hd : d < g.size) (p : NodeId) :
    alloc e p d = some (e.alloc p d) := by
  obtain ⟨rank, hle, hlt⟩ := hrank
  have hfuel : rank d < e.tree.allocFuel := by
    have := hle d
    rw [allocFuel, ht]
    omega
  have hnothing : FillsAlike g (fun _ _ t => some t) fun _ _ t => t := fun _ _ _ _ _ _ => rfl
  rw [alloc, allocWith_eq hg hlt hnothing (fills_nothing g) hd hfuel ht hap (some p)]
  rfl

theorem orAlloc_eq (hg : g.Tabled) (hrank : g.Ranked) (ht : e.tree.grammar = g)
    (hap : e.tree.Apart []) (hd : d < g.size) (existing : Option NodeId) (p : NodeId) :
    orAlloc e existing p d = some (e.orAlloc existing p d) := by
  cases existing with
  | some c => rfl
  | none => exact alloc_eq hg hrank ht hap hd p

/-- The alternative that loses is among the parts, and is cleared without a fault. -/
theorem clearLoser_eq (h : Grove e.tree parent ps) {alternatives : List (Option NodeId)}
    {current : Option Nat} (hparts : alternatives.filterMap (fun c => c) = ps.map Branch.root)
    (hcurrent : current.isSome = true → (Body.currentOf alternatives current).isSome = true)
    (index : Nat) :
    clearLoser e alternatives current index = some (e.clearLoser alternatives current index) := by
  cases current with
  | none => rfl
  | some previous =>
      unfold clearLoser Edit.clearLoser
      dsimp only
      split
      · rfl
      · obtain ⟨loser, hloser⟩ := Option.isSome_iff_exists.1 (hcurrent rfl)
        obtain ⟨i, hi, hget⟩ := Body.mem_currentOf hloser
        obtain rfl : previous = i := Option.some.inj hi
        have hmem : loser ∈ ps.map Branch.root := by
          rw [← hparts]
          exact List.mem_filterMap.2 ⟨some loser, List.mem_of_getElem? hget, rfl⟩
        obtain ⟨l, p, r, rfl, rfl⟩ := exists_part hmem
        have hps : l ++ p :: r = l ++ [p] ++ r := by simp
        rw [hps] at h
        simp only [hget, Option.bind_eq_bind, Option.bind_some, Option.join_some]
        exact onTree_reset_eq h.left.right

/-! ### One case for each kind of node -/

/-- A split of the definition of a node is assigned to it without a fault. -/
def AssignsAlike (g : Grammar) (text : Text) (split : Split) : Prop :=
  ∀ (e : Edit) (parent : Option NodeId) (b : Branch), e.tree.grammar = g → Grove e.tree parent [b] →
    (e.tree.node b.root).definition < g.size →
    split.Fits g text (e.tree.node b.root).definition →
    assign text split b.root e = some (Edit.assign text split b.root e)

/-- Splits of the definitions of several nodes are assigned to them without a fault. -/
def AssignsEachAlike (g : Grammar) (text : Text) (parts : List Split) : Prop :=
  ∀ (e : Edit) (parent : Option NodeId) (bs : List Branch), e.tree.grammar = g →
    Grove e.tree parent bs → (∀ b ∈ bs, (e.tree.node b.root).definition < g.size) →
    Split.FitAll g text parts (bs.map fun b => (e.tree.node b.root).definition) →
    assignEach text parts (bs.map Branch.root) e =
      some (Edit.assignEach text parts (bs.map Branch.root) e)

/-- New nodes follow the parts of a split without a fault. -/
def SpawnsEachAlike (g : Grammar) (text : Text) (parts : List Split) : Prop :=
  ∀ (e : Edit) (parent : NodeId) (d : DefId), e.tree.grammar = g → e.tree.Apart [] →
    d < g.size → Split.FitEach g text parts d →
    spawnEach text parts d parent e = some (Edit.spawnEach text parts d parent e)

/-- Only a leaf takes the text of a split without parts. -/
theorem isLeaf_of_leafFits {w : Text} (h : g.LeafFits d w) : (g.shape d).isLeaf = true := by
  unfold Grammar.LeafFits at h
  split at h
  all_goals first
    | exact h.elim
    | next hrule =>
      rw [hrule]
      rfl

/-- A node without parts takes the text of a split without parts, whether it is live or left in a free
slot. -/
theorem assign_of_body (hg : g.Tabled) (ht : e.tree.grammar = g) (hsize : id.index < e.tree.slots.size)
    (hd : (e.tree.node id).definition < g.size) (hbody : (e.tree.node id).body = .leaf)
    (hfits : (Split.leaf span).Fits g text (e.tree.node id).definition) :
    assign text (.leaf span) id e = some (Edit.assign text (.leaf span) id e) := by
  rw [Split.Fits] at hfits
  obtain ⟨hrange, hfits⟩ := hfits
  have hstore := store_eq hsize hrange
  rw [assign, node_eq hsize, ht]
  simp only [Option.bind_eq_bind, Option.bind_some, shape_eq hg hd, hbody]
  unfold Grammar.LeafFits at hfits
  split at hfits
  all_goals first
    | exact hfits.elim
    | next hrule =>
      rw [hrule]
      exact hstore

theorem assign_leaf_eq (hg : g.Tabled) : AssignsAlike g text (.leaf span) := by
  rintro e parent ⟨id, ps⟩ ht hgrove hd hfits
  obtain ⟨hopened, -, hsound⟩ := Opened.of_grove hgrove
  rw [root_fork] at hd hfits ⊢
  refine assign_of_body hg ht hopened.size hd ((formed_leaf_iff ?_).1 hsound.formed) hfits
  rw [Split.Fits] at hfits
  rw [shapeOf, ht]
  exact isLeaf_of_leafFits hfits.2

theorem assign_sequence_eq (hg : g.Tabled) (hrank : g.Ranked) {parts : List Split}
    (hparts : AssignsEachAlike g text parts) : AssignsAlike g text (.sequence span parts) := by
  rintro e parent ⟨id, ps⟩ ht hgrove hd hfits
  obtain ⟨hopened, howned, hsound⟩ := Opened.of_grove hgrove
  rw [root_fork] at hd hfits ⊢
  rw [Split.Fits] at hfits
  obtain ⟨hrange, -, items, hrule, hall⟩ := hfits
  have hshape : e.tree.shapeOf id = .sequence items := by rw [shapeOf, ht, hrule]
  obtain ⟨children, hbody, hdefs⟩ := (formed_sequence_iff hshape).1 hsound.formed
  obtain rfl : children = ps.map Branch.root := by
    rw [hbody] at howned
    exact howned
  rw [List.map_map] at hdefs
  have hlength : items.length = (ps.map Branch.root).length := by simp [← hdefs]
  have hfit : Split.FitAll g text parts (ps.map fun b => (e.tree.node b.root).definition) := by
    rwa [← hdefs] at hall
  have hlt : ∀ b ∈ ps, (e.tree.node b.root).definition < g.size := by
    intro b hb
    refine hg.references_shape (d := (e.tree.node id).definition) ?_
    rw [hrule, ← hdefs]
    exact List.mem_map_of_mem (f := fun b => (e.tree.node b.root).definition) hb
  obtain ⟨ps', freed, ns, -, hmakes, -⟩ :=
    Edit.assignsEach hg.toValid hrank parts e (some id) ps ht hopened.grove hfit
  have hsize := Nat.lt_of_lt_of_le hopened.size hmakes.regrown.rework.size_le
  rw [assign, Edit.assign, node_eq hopened.size, ht]
  simp only [Option.bind_eq_bind, Option.bind_some, shape_eq hg hd, hrule, hbody, if_pos hlength,
    hparts e (some id) ps ht hopened.grove hlt hfit]
  exact store_eq hsize hrange

/-- One part follows the inner split: the part that is there, or a new one. -/
theorem assign_part_eq (hg : g.Tabled) (hrank : g.Ranked) {inner : Split}
    (hinner : AssignsAlike g text inner) (ht : e.tree.grammar = g)
    (ho : Opened e.tree parent id (l ++ cs ++ r)) {existing : Option NodeId}
    (hcs : existing.toList = cs.map Branch.root)
    (hdef : ∀ c, existing = some c → (e.tree.node c).definition = d) (hd : d < g.size)
    (hfits : inner.Fits g text d) (hrange : IsRange text span.start span.stop)
    (body : NodeId → Body) :
    (do let (child, e) ← orAlloc e existing id d
        let e ← onTree e fun t => setBody t id (body child)
        let e ← assign text inner child e
        store text span id e) =
      some (match e.orAlloc existing id d with
        | (child, e) => (Edit.assign text inner child
            (e.onTree fun t => t.setBody id (body child))).store id
              (slice text span.start span.stop)) := by
  rcases halloc : e.orAlloc existing id d with ⟨child, e₁⟩
  obtain ⟨u, rfl, hre, -, -, hchild, -⟩ := Edit.orAlloc_reopened (by rw [ht]; exact hg.toValid)
    (by rwa [ht]) ho hcs hdef halloc
  have ht₁ : e₁.tree.grammar = g := hre.rework.grammar.trans ht
  obtain ⟨hre₂, -, hparts⟩ := hre.opened.setBody (body u.root)
  obtain ⟨e₂, he₂⟩ : ∃ e₂, e₂ = e₁.onTree fun t => t.setBody id (body u.root) := ⟨_, rfl⟩
  have htree₂ : e₂.tree = e₁.tree.setBody id (body u.root) := by rw [he₂]; rfl
  rw [← htree₂] at hre₂ hparts
  have ht₂ : e₂.tree.grammar = g := hre₂.rework.grammar.trans ht₁
  have hgrove : Grove e₂.tree (some id) [u] := hre₂.opened.grove.left.right
  have hmem : u.root ∈ idsAll (l ++ [u] ++ r) := by simp [u.root_mem_ids]
  have hu : (e₂.tree.node u.root).definition = d := by rw [hparts _ hmem, hchild]
  obtain ⟨u', freed, ns, -, hmakes, -⟩ :=
    Edit.assigns hg.toValid hrank inner e₂ (some id) u ht₂ hgrove (by rwa [hu])
  have hsize := Nat.lt_of_lt_of_le hre₂.opened.size hmakes.regrown.rework.size_le
  rw [orAlloc_eq hg hrank ht (ho.grove.apart.mono (by simp)) hd, halloc]
  simp only [Option.bind_eq_bind, Option.bind_some, onTree_setBody_eq hre.opened.size, ← he₂,
    hinner e₂ (some id) u ht₂ hgrove (by rwa [hu]) (by rwa [hu])]
  exact store_eq hsize hrange

theorem assign_choice_eq (hg : g.Tabled) (hrank : g.Ranked) {index : Nat} {inner : Split}
    (hinner : AssignsAlike g text inner) : AssignsAlike g text (.choice span index inner) := by
  rintro e parent ⟨id, ps⟩ ht hgrove hd hfits
  obtain ⟨hopened, howned, hsound⟩ := Opened.of_grove hgrove
  rw [root_fork] at hd hfits ⊢
  rw [Split.Fits] at hfits
  obtain ⟨hrange, -, defs, a, hrule, ha, hfit⟩ := hfits
  have hshape : e.tree.shapeOf id = .choice defs := by rw [shapeOf, ht, hrule]
  obtain ⟨alternatives, current, hbody, hlength, hdefs, hcurrent⟩ :=
    (formed_choice_iff hshape).1 hsound.formed
  have ha' : a < g.size := by
    refine hg.references_shape (d := (e.tree.node id).definition) ?_
    rw [hrule]
    exact List.mem_of_getElem? ha
  have hparts : alternatives.filterMap (fun c => c) = ps.map Branch.root := by
    rw [hbody] at howned
    exact howned
  obtain ⟨before, existing, after, l, cs, r, rfl, rfl, rfl, hchosen⟩ :=
    Edit.exists_chosen (by rw [hlength]; exact (List.getElem?_eq_some_iff.1 ha).1) hparts
  have hclear := clearLoser_eq hopened.grove hparts hcurrent before.length
  rcases hclear' : e.clearLoser (before ++ existing :: after) current before.length with e₁
  obtain ⟨l', r', freed, hbeside, -⟩ := Edit.clearLoser_reopened hopened hbody hchosen hclear'
  have hre := hbeside.reopened
  have hshape₁ : e₁.tree.shapeOf id = .choice defs := by
    rw [← hshape, shapeOf, shapeOf, hbeside.self, hre.rework.grammar]
  have hdef₁ : Edit.alternativeDef e₁.tree id before.length = a := by
    rw [Edit.alternativeDef, hshape₁]
    simp [List.getD_eq_getElem?_getD, ha]
  have hexisting : ∀ c, existing = some c → (e₁.tree.node c).definition = a := by
    intro c hc
    rw [hbeside.middle c (Grove.root_mem (by rw [← hchosen.middle, hc]; simp))]
    have := hdefs before.length c (by simp [hc])
    rw [ha] at this
    exact (Option.some.inj this).symm
  rw [assign, Edit.assign, node_eq hopened.size, ht]
  simp only [Option.bind_eq_bind, Option.bind_some, shape_eq hg hd, hrule, hbody, hclear, hclear',
    ha, hdef₁]
  have hget : (before ++ existing :: after)[before.length]? = some existing := by simp
  simp only [hget, Option.bind_some, Option.join_some]
  exact assign_part_eq hg hrank hinner (hre.rework.grammar.trans ht) hre.opened hchosen.middle
    hexisting ha' hfit hrange fun child =>
      .choice ((before ++ existing :: after).set before.length (some child)) (some before.length)

theorem assign_present_eq (hg : g.Tabled) (hrank : g.Ranked) {inner : Split}
    (hinner : AssignsAlike g text inner) : AssignsAlike g text (.present span inner) := by
  rintro e parent ⟨id, ps⟩ ht hgrove hd hfits
  obtain ⟨hopened, howned, hsound⟩ := Opened.of_grove hgrove
  rw [root_fork] at hd hfits ⊢
  rw [Split.Fits] at hfits
  obtain ⟨hrange, -, -, item, quantifier, hrule, hfit⟩ := hfits
  have hshape : e.tree.shapeOf id = .optional item quantifier := by rw [shapeOf, ht, hrule]
  obtain ⟨existing, present, hbody, hdef, -⟩ := (formed_optional_iff hshape).1 hsound.formed
  have hparts : existing.toList = ps.map Branch.root := by
    rw [hbody] at howned
    exact howned
  have hitem : item < g.size := by
    refine hg.references_shape (d := (e.tree.node id).definition) ?_
    simp [hrule, Rule.references]
  have hdef' : Edit.itemDef e.tree id = item := by rw [Edit.itemDef, hshape]
  have hps : ps = [] ++ ps ++ [] := by simp
  rw [assign, Edit.assign, node_eq hopened.size, ht]
  simp only [Option.bind_eq_bind, Option.bind_some, shape_eq hg hd, hrule, hbody, hdef']
  rw [hps] at hopened
  exact assign_part_eq hg hrank hinner ht hopened hparts hdef hitem hfit hrange fun child =>
    .optional (some child) true

theorem assign_absent_eq (hg : g.Tabled) : AssignsAlike g text (.absent span) := by
  rintro e parent ⟨id, ps⟩ ht hgrove hd hfits
  obtain ⟨hopened, howned, hsound⟩ := Opened.of_grove hgrove
  rw [root_fork] at hd hfits ⊢
  rw [Split.Fits] at hfits
  obtain ⟨hrange, -, item, quantifier, hrule⟩ := hfits
  have hshape : e.tree.shapeOf id = .optional item quantifier := by rw [shapeOf, ht, hrule]
  obtain ⟨existing, present, hbody, -, -⟩ := (formed_optional_iff hshape).1 hsound.formed
  have hparts : existing.toList = ps.map Branch.root := by
    rw [hbody] at howned
    exact howned
  rw [assign, Edit.assign, node_eq hopened.size, ht]
  simp only [Option.bind_eq_bind, Option.bind_some, shape_eq hg hd, hrule, hbody]
  cases existing with
  | none =>
      simp only [clearAbsent, Option.bind_some, onTree_setBody_eq hopened.size]
      exact store_eq (Nat.lt_of_lt_of_eq hopened.size (size_setBody _ _ _).symm) hrange
  | some c =>
      obtain ⟨p, rfl⟩ := List.length_eq_one_iff.1
        (by simpa using (congrArg List.length hparts).symm)
      obtain rfl : p.root = c := by simpa using hparts.symm
      obtain ⟨p', freed, -, hreset, -⟩ := reset_regrown hopened.grove
      have hsize : id.index < (e.onTree fun t => t.reset p.root).tree.slots.size :=
        Nat.lt_of_lt_of_le hopened.size hreset.rework.size_le
      simp only [clearAbsent, onTree_reset_eq hopened.grove, Option.bind_some,
        onTree_setBody_eq hsize]
      exact store_eq (Nat.lt_of_lt_of_eq hsize (size_setBody _ _ _).symm) hrange

theorem assign_loop_eq (hg : g.Tabled) (hrank : g.Ranked) {items : List Split}
    (hitems : SpawnsEachAlike g text items) : AssignsAlike g text (.loop span items) := by
  rintro e parent ⟨id, ps⟩ ht hgrove hd hfits
  obtain ⟨hopened, howned, hsound⟩ := Opened.of_grove hgrove
  rw [root_fork] at hd hfits ⊢
  rw [Split.Fits] at hfits
  obtain ⟨hrange, -, item, repetition, hrule, -, heach⟩ := hfits
  have hshape : e.tree.shapeOf id = .loop item repetition := by rw [shapeOf, ht, hrule]
  obtain ⟨old, hbody, -⟩ := (formed_loop_iff hshape).1 hsound.formed
  obtain rfl : old = ps.map Branch.root := by
    rw [hbody] at howned
    exact howned
  have hitem : item < g.size := by
    refine hg.references_shape (d := (e.tree.node id).definition) ?_
    simp [hrule, Rule.references]
  -- the old items are released, new ones are made, and then the node takes them
  obtain ⟨freed, hrelease, -⟩ := release_regrown hopened.grove
  obtain ⟨e₁, he₁⟩ : ∃ e₁, e₁ = e.onTree fun t => t.release (ps.map Branch.root) := ⟨_, rfl⟩
  replace hrelease : Regrown e.tree e₁.tree (some id) ps [] freed := he₁ ▸ hrelease
  obtain ⟨hre, hself⟩ := hopened.step_all hrelease
  have ht₁ : e₁.tree.grammar = g := hre.rework.grammar.trans ht
  have hdef₁ : Edit.itemDef e₁.tree id = item := by
    rw [Edit.itemDef, shapeOf, hself, ht₁, hrule]
  have hap : e₁.tree.Apart [] := hre.opened.grove.apart.mono (by simp)
  rcases hspawn : Edit.spawnEach text items item id e₁ with ⟨ids, e₂⟩
  obtain ⟨us, ns, -, hmakes, -, -⟩ :=
    Edit.spawnsEach hg.toValid hrank items e₁ e₂ id item ids ht₁ hap heach hspawn
  have hsize := Nat.lt_of_lt_of_le hre.opened.size hmakes.regrown.rework.size_le
  rw [assign, Edit.assign, node_eq hopened.size, ht]
  simp only [Option.bind_eq_bind, Option.bind_some, shape_eq hg hd, hrule, hbody,
    onTree_release_eq hopened.grove, ← he₁, hdef₁, hitems e₁ id item ht₁ hap hitem heach,
    hspawn, onTree_setBody_eq hsize]
  refine store_eq ?_ hrange
  exact Nat.lt_of_lt_of_eq hsize (size_setBody _ _ _).symm

theorem assign_separated_eq (hg : g.Tabled) (hrank : g.Ranked) {items separators : List Split}
    (hitems : SpawnsEachAlike g text items) (hseparators : SpawnsEachAlike g text separators) :
    AssignsAlike g text (.separated span items separators) := by
  rintro e parent ⟨id, ps⟩ ht hgrove hd hfits
  obtain ⟨hopened, howned, hsound⟩ := Opened.of_grove hgrove
  rw [root_fork] at hd hfits ⊢
  rw [Split.Fits] at hfits
  obtain ⟨hrange, -, item, separator, default, repetition, hrule, -, -, heach, heach'⟩ := hfits
  have hshape : e.tree.shapeOf id = .separated item separator default repetition := by
    rw [shapeOf, ht, hrule]
  obtain ⟨oldItems, oldSeparators, hbody, -⟩ := (formed_separated_iff hshape).1 hsound.formed
  have hparts : oldItems ++ oldSeparators = ps.map Branch.root := by
    rw [hbody] at howned
    exact howned
  have hlt : item < g.size ∧ separator < g.size := by
    constructor <;>
    · refine hg.references_shape (d := (e.tree.node id).definition) ?_
      simp [hrule, Rule.references]
  obtain ⟨is, ss, rfl, rfl, rfl⟩ := List.map_eq_append_iff.1 hparts.symm
  -- the old elements are released, new ones are made, and then the node takes them
  obtain ⟨freed₀, hrelease₀, -⟩ := release_regrown hopened.grove.left
  have hrest := (hrelease₀.rest hopened.grove).1
  obtain ⟨freed, hrelease, -⟩ := release_release_regrown hopened.grove
  obtain ⟨e₀, he₀⟩ : ∃ e₀, e₀ = e.onTree fun t => t.release (is.map Branch.root) := ⟨_, rfl⟩
  obtain ⟨e₁, he₁⟩ : ∃ e₁, e₁ = e₀.onTree fun t => t.release (ss.map Branch.root) := ⟨_, rfl⟩
  have he : e.onTree (fun t => (t.release (is.map Branch.root)).release (ss.map Branch.root)) =
      e₁ := by
    rw [he₁, he₀]
    rfl
  replace hrest : Grove e₀.tree (some id) ss := he₀ ▸ hrest
  replace hrelease : Regrown e.tree e₁.tree (some id) (is ++ ss) [] freed := he ▸ hrelease
  obtain ⟨hre, hself⟩ := hopened.step_all hrelease
  have ht₁ : e₁.tree.grammar = g := hre.rework.grammar.trans ht
  have hdef₁ : Edit.itemDef e₁.tree id = item := by
    rw [Edit.itemDef, shapeOf, hself, ht₁, hrule]
  have hap : e₁.tree.Apart [] := hre.opened.grove.apart.mono (by simp)
  rcases hspawn : Edit.spawnEach text items item id e₁ with ⟨ids, e₂⟩
  obtain ⟨us, ns, -, hmakes, -, -⟩ :=
    Edit.spawnsEach hg.toValid hrank items e₁ e₂ id item ids ht₁ hap heach hspawn
  obtain ⟨hre₂, hself₂⟩ := hre.opened.step_all hmakes.regrown
  have ht₂ : e₂.tree.grammar = g := hre₂.rework.grammar.trans ht₁
  have hdef₂ : Edit.separatorDef e₂.tree id = separator := by
    rw [Edit.separatorDef, shapeOf, hself₂, hself, ht₂, hrule]
  have hap₂ : e₂.tree.Apart [] := hre₂.opened.grove.apart.mono (by simp)
  rcases hspawn' : Edit.spawnEach text separators separator id e₂ with ⟨ids', e₃⟩
  obtain ⟨vs, ns', -, hmakes', -, -⟩ :=
    Edit.spawnsEach hg.toValid hrank separators e₂ e₃ id separator ids' ht₂ hap₂ heach' hspawn'
  have hsize := Nat.lt_of_lt_of_le hre₂.opened.size hmakes'.regrown.rework.size_le
  rw [assign, Edit.assign, node_eq hopened.size, ht]
  simp only [Option.bind_eq_bind, Option.bind_some, shape_eq hg hd, hrule, hbody,
    onTree_release_eq hopened.grove.left, ← he₀, onTree_release_eq hrest, ← he₁, he,
    hdef₁, hitems e₁ id item ht₁ hap hlt.1 heach, hspawn, hdef₂,
    hseparators e₂ id separator ht₂ hap₂ hlt.2 heach', hspawn', onTree_setBody_eq hsize]
  refine store_eq ?_ hrange
  exact Nat.lt_of_lt_of_eq hsize (size_setBody _ _ _).symm

/-! ### All splits -/

theorem assignEach_nil_eq : AssignsEachAlike g text [] := by
  rintro e parent bs - - - hfits
  obtain rfl : bs = [] := by simpa [Split.FitAll] using hfits
  simp only [List.map_nil, assignEach, Edit.assignEach]

theorem assignEach_cons_eq (hg : g.Tabled) (hrank : g.Ranked) {part : Split} {parts : List Split}
    (hpart : AssignsAlike g text part) (hparts : AssignsEachAlike g text parts) :
    AssignsEachAlike g text (part :: parts) := by
  rintro e parent bs ht hgrove hd hfits
  obtain ⟨d, ds, hds, hfit, hall⟩ := hfits
  obtain ⟨b, bs, rfl, rfl, rfl⟩ := List.map_eq_cons_iff.1 hds
  have hgrove : Grove e.tree parent ([b] ++ bs) := hgrove
  obtain ⟨b', freed, ns, -, hmakes, -⟩ :=
    Edit.assigns hg.toValid hrank part e parent b ht hgrove.left hfit
  obtain ⟨hrest, hsame⟩ := hmakes.regrown.rest hgrove
  have hdefs : ∀ c ∈ bs, ((Edit.assign text part b.root e).tree.node c.root).definition =
      (e.tree.node c.root).definition := by
    intro c hc
    rw [hsame c.root (Grove.root_mem (List.mem_map_of_mem hc))]
  rw [List.map_cons, assignEach, Edit.assignEach,
    hpart e parent b ht hgrove.left (hd b List.mem_cons_self) hfit]
  refine hparts _ parent bs (hmakes.regrown.rework.grammar.trans ht) hrest (fun c hc => ?_) ?_
  · rw [hdefs c hc]
    exact hd c (List.mem_cons_of_mem _ hc)
  · rwa [List.map_congr_left hdefs]

theorem spawnEach_nil_eq : SpawnsEachAlike g text [] := by
  rintro e parent d - - - -
  rw [spawnEach, Edit.spawnEach]

/-- A new node is made and follows a split, both without a fault; then the next one can be made. -/
theorem alloc_assign_eq (hg : g.Tabled) (hrank : g.Ranked) {split : Split}
    (hsplit : AssignsAlike g text split) (ht : e.tree.grammar = g) (hap : e.tree.Apart [])
    (hd : d < g.size) (hfits : split.Fits g text d) (p : NodeId) :
    ∃ id e', e.alloc p d = (id, e') ∧ alloc e p d = some (id, e') ∧
      assign text split id e' = some (Edit.assign text split id e') ∧
      (Edit.assign text split id e').tree.grammar = g ∧
      (Edit.assign text split id e').tree.Apart [] := by
  obtain ⟨u, hu, -⟩ := alloc_sprouted (by rw [ht]; exact hg.toValid) (by rwa [ht]) hap p d
  have hroot : u.root = (Tree.alloc p d e.tree).1 := by simpa using hu.roots
  have halloc : e.alloc p d = (u.root, ⟨(Tree.alloc p d e.tree).2, e.notices⟩) := by
    rw [hroot]
    rfl
  rw [← hroot] at hu
  have hdef : ((Tree.alloc p d e.tree).2.node u.root).definition = d := by
    simpa using hu.definitions
  have ht' : (Tree.alloc p d e.tree).2.grammar = g := hu.regrown.rework.grammar.trans ht
  obtain ⟨u', freed, ns, -, hmakes, -⟩ := Edit.assigns hg.toValid hrank split
    ⟨(Tree.alloc p d e.tree).2, e.notices⟩ (some p) u ht' hu.regrown.grove (by rwa [hdef])
  refine ⟨_, _, halloc, ?_, ?_, hmakes.regrown.rework.grammar.trans ht',
    hmakes.regrown.grove.apart.mono (by simp)⟩
  · rw [alloc_eq hg hrank ht hap hd, halloc]
  · exact hsplit _ (some p) u ht' hu.regrown.grove (by rwa [hdef]) (by rwa [hdef])

theorem spawnEach_cons_eq (hg : g.Tabled) (hrank : g.Ranked) {part : Split} {parts : List Split}
    (hpart : AssignsAlike g text part) (hparts : SpawnsEachAlike g text parts) :
    SpawnsEachAlike g text (part :: parts) := by
  rintro e parent d ht hap hd ⟨hfit, heach⟩
  obtain ⟨id, e', halloc, halloc', hassign, ht', hap'⟩ :=
    alloc_assign_eq hg hrank hpart ht hap hd hfit parent
  rw [spawnEach, Edit.spawnEach, halloc, halloc']
  simp only [Option.bind_eq_bind, Option.bind_some, hassign, hparts _ parent d ht' hap' hd heach]
  rfl

mutual

/-- **A split is assigned without a fault.** -/
theorem assign_eq (hg : g.Tabled) (hrank : g.Ranked) : ∀ split : Split, AssignsAlike g text split
  | .leaf _ => assign_leaf_eq hg
  | .sequence _ parts => assign_sequence_eq hg hrank (assignEach_eq hg hrank parts)
  | .choice _ _ inner => assign_choice_eq hg hrank (assign_eq hg hrank inner)
  | .absent _ => assign_absent_eq hg
  | .present _ inner => assign_present_eq hg hrank (assign_eq hg hrank inner)
  | .loop _ items => assign_loop_eq hg hrank (spawnEach_eq hg hrank items)
  | .separated _ items separators =>
      assign_separated_eq hg hrank (spawnEach_eq hg hrank items) (spawnEach_eq hg hrank separators)

theorem assignEach_eq (hg : g.Tabled) (hrank : g.Ranked) :
    ∀ parts : List Split, AssignsEachAlike g text parts
  | [] => assignEach_nil_eq
  | part :: parts =>
      assignEach_cons_eq hg hrank (assign_eq hg hrank part) (assignEach_eq hg hrank parts)

theorem spawnEach_eq (hg : g.Tabled) (hrank : g.Ranked) :
    ∀ parts : List Split, SpawnsEachAlike g text parts
  | [] => spawnEach_nil_eq
  | part :: parts =>
      spawnEach_cons_eq hg hrank (assign_eq hg hrank part) (spawnEach_eq hg hrank parts)

end

/-- A new node follows a split without a fault. -/
theorem spawn_eq (hg : g.Tabled) (hrank : g.Ranked) (ht : e.tree.grammar = g)
    (hap : e.tree.Apart []) (hd : d < g.size) {split : Split} (hfits : split.Fits g text d)
    (p : NodeId) : spawn text split d p e = some (Edit.spawn text split d p e) := by
  obtain ⟨id, e', halloc, halloc', hassign, -⟩ :=
    alloc_assign_eq hg hrank (assign_eq hg hrank split) ht hap hd hfits p
  rw [spawn, Edit.spawn, halloc, halloc']
  simp only [Option.bind_eq_bind, Option.bind_some, hassign]
  rfl

/-! ### Default contents -/

theorem defaultContent_eq (hg : g.Tabled) (hd : d < g.size) :
    defaultContent g d = some (g.defaultContent? d) := by
  rw [defaultContent, chain_eq hg hd]
  rfl

/-- A node in order receives its default content without a fault. -/
theorem fillDefault_alike (hg : g.Tabled) (hrank : g.Ranked) :
    FillsAlike g fillDefault Tree.fillDefault := by
  rintro t parent b rfl hgrove hd
  rw [fillDefault, Tree.fillDefault, defaultContent_eq hg hd]
  simp only [Option.bind_eq_bind, Option.bind_some]
  cases t.grammar.defaultContent? (t.node b.root).definition with
  | none => rfl
  | some content =>
      simp only [resolve_eq hg hd, Option.bind_some]
      cases hresult : (Tessera.resolve t.grammar (t.node b.root).definition content).result with
      | error fault => rfl
      | ok split =>
          have hfits := (split_fits hg.toValid hresult).1
          simp only [assign_eq hg hrank split ⟨t, []⟩ parent b rfl hgrove hd hfits]
          rfl

/-- **A new node is filled with its default without a fault.** -/
theorem allocFilled_eq {t : Tree} (hg : t.grammar.Tabled) (hrank : t.grammar.Ranked)
    (hap : t.Apart []) (hd : d < t.grammar.size) (parent : Option NodeId) :
    allocFilled parent d t = some (Tree.allocFilled parent d t) := by
  obtain ⟨rank, hle, hlt⟩ := id hrank
  have hfuel : rank d < t.allocFuel := by
    have := hle d
    rw [allocFuel]
    omega
  exact allocWith_eq hg hlt (fillDefault_alike hg hrank) (fills_default hg.toValid hrank) hd hfuel
    rfl hap parent

end Strict

end Tessera
