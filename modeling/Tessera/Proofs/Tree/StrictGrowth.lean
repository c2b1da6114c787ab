/-
**New, released and cleared nodes without faults.**

Where the nodes of a tree stand in their slots and have the parts that their definitions ask for,
making nodes, releasing them and clearing them never comes upon a slot or a part that is not there,
and no fuel runs out: sequences nest no deeper than the ranks of the definitions, and branches no
deeper than they have nodes.

Main definitions:

* `Tessera.Strict.FillsAlike` — filling a node in order comes upon no fault.

Main results:

* `Tessera.Strict.allocWith_eq` — **a new node comes without a fault**;
* `Tessera.Strict.release_eq` — **branches are released without a fault**;
* `Tessera.Strict.reset_eq` — **a branch is cleared without a fault**.
-/

import Tessera.Proofs.Search.Strict
import Tessera.Proofs.Tree.FirstUse
import Tessera.Tree.Strict

set_option autoImplicit false

namespace Tessera

open Branch Tessera.Tree

namespace Strict

variable {t t' : Tree} {parent : Option NodeId} {id : NodeId} {b : Branch} {bs ps : List Branch}
  {g : Grammar} {fuel : Nat}

/-! ### Slots and parts -/

theorem node_eq (h : id.index < t.slots.size) : node t id = some (t.node id) := by
  simp [node, Tree.node, Array.getD, h]

theorem modify_eq (h : id.index < t.slots.size) (f : Node → Node) :
    modify t id f = some (t.modify id f) := by
  rw [modify, node_eq h]
  rfl

theorem setBody_eq (h : id.index < t.slots.size) (body : Body) :
    setBody t id body = some (t.setBody id body) :=
  modify_eq h _

/-- The slot that was freed last exists. -/
theorem occupy_eq {S : List Nat} (hap : t.Apart S) (n : Node) : occupy t n = some (t.occupy n) := by
  unfold occupy
  split
  · rfl
  · next i free hfree => exact if_pos (hap.free_lt_size (by simp [hfree]))

theorem minus_eq {m n : Nat} (h : n ≤ m) : minus m n = some (m - n) := if_pos h

theorem fresh_eq {rule : Rule} (h : rule.target? = none) : fresh rule = some (.fresh rule) := by
  cases rule <;> simp_all [fresh, Rule.target?]

/-- A choice with a current alternative has a node for it. -/
theorem currentOf_eq {alternatives : List (Option NodeId)} {current : Option Nat}
    (h : current.isSome = true → (Body.currentOf alternatives current).isSome = true) :
    currentOf alternatives current = some (Body.currentOf alternatives current) := by
  cases current with
  | none => rfl
  | some i =>
      obtain ⟨c, hc⟩ := Option.isSome_iff_exists.1 (h rfl)
      obtain ⟨j, hj, hget⟩ := Body.mem_currentOf hc
      obtain rfl : i = j := Option.some.inj hj
      rw [hc]
      exact hget

/-- The active parts of a node that is as its definition asks for. -/
theorem active_eq (h : t.Formed id) :
    active (t.node id).body = some (t.node id).body.active := by
  cases hbody : (t.node id).body with
  | choice alternatives current =>
      obtain ⟨defs, -, -, -, hcurrent⟩ := h.shape_choice hbody
      rw [active, currentOf_eq hcurrent]
      rfl
  | _ => rfl

theorem dependsOn_eq (h : t.Formed id) (c : NodeId) :
    dependsOn (t.node id).body c = some ((t.node id).body.dependsOn c) := by
  cases hbody : (t.node id).body with
  | choice alternatives current =>
      obtain ⟨defs, -, -, -, hcurrent⟩ := h.shape_choice hbody
      rw [dependsOn, currentOf_eq hcurrent]
      cases current <;> rfl
  | _ => rfl

/-! ### New nodes -/

/-- Filling a node in order comes upon no fault. -/
def FillsAlike (g : Grammar) (fill : DefId → NodeId → Tree → Option Tree)
    (fill' : DefId → NodeId → Tree → Tree) : Prop :=
  ∀ (t : Tree) (parent : Option NodeId) (b : Branch), t.grammar = g → Grove t parent [b] →
    (t.node b.root).definition < g.size →
    fill (t.node b.root).definition b.root t = some (fill' (t.node b.root).definition b.root t)

theorem allocEach_eq {alloc : DefId → Tree → Option (NodeId × Tree)}
    {alloc' : DefId → Tree → NodeId × Tree} {ds : List DefId}
    (halloc : ∀ d ∈ ds, ∀ s : Tree, s.grammar = t.grammar → s.Apart [] →
      alloc d s = some (alloc' d s) ∧
        (alloc' d s).2.grammar = s.grammar ∧ (alloc' d s).2.Apart [])
    (hap : t.Apart []) : allocEach alloc ds t = some (Tree.allocEach alloc' ds t) := by
  induction ds generalizing t with
  | nil => rfl
  | cons d ds ih =>
      obtain ⟨heq, hgrammar, hap'⟩ := halloc d List.mem_cons_self t rfl hap
      have hrest := ih (t := (alloc' d t).2)
        (fun e he s hs => halloc e (List.mem_cons_of_mem _ he) s (hs.trans hgrammar)) hap'
      simp only [allocEach, heq, Option.bind_eq_bind, Option.bind_some, hrest]
      rfl

/-- A node that was just made is filled without a fault. -/
theorem FillsAlike.of_sprouted {fill : DefId → NodeId → Tree → Option Tree}
    {fill' : DefId → NodeId → Tree → Tree} (h : FillsAlike g fill fill') {d : DefId}
    (hd : d < g.size) {freed : List Nat} (hgrammar : t.grammar = g)
    (hb : Sprouted t t' parent [id] [d] [b] freed) : fill d id t' = some (fill' d id t') := by
  obtain rfl : b.root = id := by simpa using hb.roots
  obtain rfl : (t'.node b.root).definition = d := by simpa using hb.definitions
  exact h t' parent b (hb.regrown.rework.grammar.trans hgrammar) hb.regrown.grove hd

/-- **A new node comes without a fault.** -/
theorem allocWith_eq (hg : g.Tabled) {rank : DefId → Nat}
    (hrank : ∀ d, ∀ e ∈ (g.rule d).eager, rank e < rank d)
    {fill : DefId → NodeId → Tree → Option Tree} {fill' : DefId → NodeId → Tree → Tree}
    (hfill : FillsAlike g fill fill') (hfill' : Fills g fill') {d : DefId} (hd : d < g.size)
    (hfuel : rank d < fuel) (ht : t.grammar = g) (hap : t.Apart []) (parent : Option NodeId) :
    allocWith fill fuel parent d t = some (Tree.allocWith fill' fuel parent d t) := by
  induction fuel generalizing d t parent with
  | zero => omega
  | succ fuel ih =>
      subst ht
      rcases hoccupy : t.occupy (t.freshNode d parent) with ⟨id, s⟩
      have hoccupy' : occupy t { t.freshNode d parent with body := .fresh (t.grammar.shape d) } =
          some (id, s) := by
        rw [occupy_eq hap]
        exact congrArg some hoccupy
      -- the slot of the new node is taken before its children are made
      obtain ⟨hr, hopened, -⟩ := occupy_opened hap rfl hoccupy
      have hgrammar : s.grammar = t.grammar := hr.grammar
      have hempty : s.Apart [] := hopened.apart.mono (by simp)
      rw [allocWith, Tree.allocWith, shape_eq hg hd]
      simp only [Option.bind_eq_bind, Option.bind_some, fresh_eq (hg.target?_shape d), hoccupy',
        hoccupy, hgrammar]
      cases hrule : t.grammar.shape d with
      | sequence items =>
          have hitem : ∀ e ∈ items, e < t.grammar.size ∧ rank e < fuel := by
            intro e he
            have hlt := Grammar.Ranked.item_lt hg.toValid hrank hrule he
            exact ⟨hg.references_shape (d := d) (by rw [hrule]; exact he), by omega⟩
          have hsprouted : ∀ e ∈ items, ∀ s : Tree, s.grammar = t.grammar → s.Apart [] →
              ∃ b freed, Sprouted s (Tree.allocWith fill' fuel (some id) e s).2 (some id)
                [(Tree.allocWith fill' fuel (some id) e s).1] [e] [b] freed ∧
                (False → freed = [] ∧ (Tree.allocWith fill' fuel (some id) e s).2.Bare [b]) :=
            fun e he s hs hap' => allocWith_sprouted hg.toValid hrank hfill' (fun h => h.elim)
              (hitem e he).2 hs hap' (some id)
          have hchildren : allocEach (allocWith fill fuel (some id)) items s =
              some (Tree.allocEach (Tree.allocWith fill' fuel (some id)) items s) := by
            refine allocEach_eq (fun e he s' hs' hap' => ?_) hempty
            obtain ⟨b, freed, hb, -⟩ := hsprouted e he s' (hs'.trans hgrammar) hap'
            exact ⟨ih (hitem e he).1 (hitem e he).2 (hs'.trans hgrammar) hap' (some id),
              hb.regrown.rework.grammar, hb.regrown.grove.apart.mono (by simp)⟩
          obtain ⟨cs, freed, hcs, -⟩ := allocEach_sprouted (P := False)
            (fun e he s' hs' => hsprouted e he s' (hs'.trans hgrammar)) hempty
          obtain ⟨hfirst, -⟩ := sequence_sprouted (P := False) hap hrule hoccupy hcs fun h => h.elim
          have hopened' := (hopened.step_all hcs.regrown).1.opened
          simp only [hchildren, Option.bind_some, setBody_eq hopened'.size,
            hfill.of_sprouted hd rfl hfirst]
          rfl
      | _ =>
          obtain ⟨hfirst, -⟩ := single_sprouted hap (by simp [hrule]) hoccupy
          simp only [hfill.of_sprouted hd rfl hfirst, Option.bind_some]
          rfl

/-! ### Released nodes -/

/-- Branches that are side by side are changed one after the other without a fault. -/
theorem foldlM_eq {f : Tree → NodeId → Option Tree} {f' : Tree → NodeId → Tree}
    (h : Grove t parent bs)
    (hf : ∀ b ∈ bs, ∀ s, Grove s parent [b] → f s b.root = some (f' s b.root) ∧
      ∃ bs' freed, Regrown s (f' s b.root) parent [b] bs' freed) :
    (bs.map Branch.root).foldlM f t = some ((bs.map Branch.root).foldl f' t) := by
  induction bs generalizing t with
  | nil => rfl
  | cons b bs ih =>
      have h : Grove t parent ([b] ++ bs) := h
      obtain ⟨heq, bs', freed, hr⟩ := hf b List.mem_cons_self t h.left
      rw [List.map_cons, List.foldlM_cons, heq]
      exact ih (hr.rest h).1 fun c hc => hf c (List.mem_cons_of_mem _ hc)

/-- Branches that are side by side are changed from the last to the first without a fault. -/
theorem foldlM_reverse_eq {f : Tree → NodeId → Option Tree} {f' : Tree → NodeId → Tree}
    (h : Grove t parent bs)
    (hf : ∀ b ∈ bs, ∀ s, Grove s parent [b] → f s b.root = some (f' s b.root) ∧
      ∃ bs' freed, Regrown s (f' s b.root) parent [b] bs' freed) :
    (bs.map Branch.root).reverse.foldlM f t =
      some ((bs.map Branch.root).reverse.foldl f' t) := by
  rw [← List.map_reverse]
  exact foldlM_eq (h.perm bs.reverse_perm.symm) fun b hb => hf b (List.mem_reverse.1 hb)

theorem releaseNode_eq (h : Grove t parent [b]) (hfuel : b.ids.length ≤ fuel) :
    releaseNode fuel t b.root = some (Tree.releaseNode fuel t b.root) := by
  induction fuel generalizing t parent b with
  | zero =>
      cases b
      simp at hfuel
  | succ fuel ih =>
      cases b with
      | fork id ps =>
      obtain ⟨hopened, howned, -⟩ := Opened.of_grove h
      have hlookup : t.lookup? id = some (t.node id) :=
        lookup?_eq_some.2 ⟨hopened.size, hopened.generation, rfl⟩
      rw [root_fork, releaseNode, Tree.releaseNode, node_eq hopened.size, hlookup]
      simp only [Option.bind_eq_bind, Option.bind_some, if_pos hopened.generation, howned]
      refine foldlM_reverse_eq hopened.vacate.2 fun p hp s hs => ?_
      have hlength := length_part_le hp hfuel
      obtain ⟨freed, hr, -⟩ := releaseNode_regrown hs hlength
      exact ⟨ih hs hlength, [], freed, hr⟩

/-- A branch has no more nodes than the tree has slots. -/
theorem length_ids_le (h : Grove t parent [b]) : b.ids.length ≤ t.slots.size + 1 := by
  have := h.apart.length_le
  simp only [slotsAll_cons, slotsAll_nil, List.append_nil, Branch.slots, List.length_map] at this
  omega

/-- **Branches are released without a fault.** -/
theorem release_eq (h : Grove t parent bs) :
    release t (bs.map Branch.root) = some (t.release (bs.map Branch.root)) := by
  have hlength : ∀ b ∈ bs, b.ids.length ≤ t.slots.size + 1 := by
    intro b hb
    obtain ⟨l, r, rfl⟩ := List.append_of_mem hb
    have : l ++ b :: r = l ++ [b] ++ r := by simp
    rw [this] at h
    exact length_ids_le h.left.right
  refine foldlM_reverse_eq h fun b hb s hs => ?_
  obtain ⟨freed, hr, -⟩ := releaseNode_regrown hs (hlength b hb)
  exact ⟨releaseNode_eq hs (hlength b hb), [], freed, hr⟩

/-! ### Cleared nodes -/

theorem resetNode_eq (h : Grove t parent [b]) (hfuel : b.ids.length ≤ fuel) :
    resetNode fuel t b.root = some (Tree.resetNode fuel t b.root) := by
  induction fuel generalizing t parent b with
  | zero =>
      cases b
      simp at hfuel
  | succ fuel ih =>
      cases b with
      | fork id ps =>
      obtain ⟨hopened, howned, hsound⟩ := Opened.of_grove h
      have hpart : ∀ p ∈ ps, ∀ s, Grove s (some id) [p] →
          resetNode fuel s p.root = some (Tree.resetNode fuel s p.root) ∧
          ∃ bs' freed, Regrown s (Tree.resetNode fuel s p.root) (some id) [p] bs' freed := by
        intro p hp s hs
        have hlength := length_part_le hp hfuel
        obtain ⟨p', freed, -, hr, -⟩ := resetNode_regrown hlength s _ hs
        exact ⟨ih hs hlength, [p'], freed, hr⟩
      rw [root_fork, resetNode, Tree.resetNode, node_eq hopened.size]
      simp only [Option.bind_eq_bind, Option.bind_some]
      cases hbody : (t.node id).body with
      | leaf => rfl
      | sequence children =>
          rw [hbody] at howned
          obtain rfl : children = ps.map Branch.root := howned
          exact foldlM_reverse_eq hopened.clearContent.1.opened.grove hpart
      | choice alternatives current =>
          rw [hbody] at howned
          obtain ⟨defs, -, -, -, hcurrent⟩ := hsound.formed.shape_choice hbody
          obtain ⟨hclear, -⟩ := hopened.clear (.choice alternatives none)
          simp only [currentOf_eq hcurrent, Option.bind_some]
          -- the active alternative is one of the parts, and only it is cleared
          obtain ⟨l, qs, r, rfl, hqs⟩ := exists_current howned
          simp only [hqs]
          exact foldlM_eq hclear.opened.grove.left.right fun q hq => hpart q (by simp [hq])
      | optional child present =>
          rw [hbody] at howned
          have hparts : child.toList = ps.map Branch.root := howned
          obtain ⟨hclear, -⟩ := hopened.clear (.optional child false)
          simp only [hparts]
          exact foldlM_eq hclear.opened.grove hpart
      | loop items =>
          rw [hbody] at howned
          obtain rfl : items = ps.map Branch.root := howned
          exact release_eq (hopened.clear (.loop [])).1.opened.grove
      | separated items separators =>
          rw [hbody] at howned
          have hparts : items ++ separators = ps.map Branch.root := howned
          simp only [hparts]
          exact release_eq (hopened.clear (.separated [] [])).1.opened.grove

/-- **A branch is cleared without a fault.** -/
theorem reset_eq (h : Grove t parent [b]) : reset t b.root = some (t.reset b.root) :=
  resetNode_eq h (length_ids_le h)

end Strict

end Tessera
