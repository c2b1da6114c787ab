/-
**The lines of an outline.**

An outline goes through the nodes of the active structure: a node comes before the parts that make up
its content, and the parts come in the order of the content, each with everything below it.  The same
walk is made with a stack: the node on top is visited and its parts take its place.

Each node of the walk has an entry, indented by its depth, and a line feed after it.  Contents are
quoted, so they cannot break the line; the field name stands there as it was given.

Main definitions:

* `Tessera.Tree.Preorder` — the walk through the active structure, with the depths;
* `Tessera.Tree.traverse` — the same walk with a stack;
* `Tessera.Tree.outlineEntry` — the entry of a node in an outline;
* `Tessera.Tree.OutlinedByLines` — what the lines of an outline are.

Main results:

* `Tessera.Tree.Preorder.mem_iff` — the walk visits what contributes to the content;
* `Tessera.Tree.Preorder.traverse_eq` — **a stack gives the same walk**;
* `Tessera.Garden.exists_preorder` — an outline has an entry for each node of the walk, and no node is
  visited twice;
* `Tessera.Session.entries_run` — **listings and outlines have the lines of their entries and one more
  for each line feed in a pattern or a field name**;
* `Tessera.Session.broken_lines` — a listing with more lines than definitions and an outline with more
  lines than nodes.
-/

import Tessera.Proofs.Grammar.Listings
import Tessera.Proofs.Tree.Coherence
import Tessera.Proofs.Tree.Forgetting

set_option autoImplicit false

namespace Tessera

open Branch

namespace Tree

variable {t : Tree} {depth : Nat} {id m n : NodeId} {ids : List NodeId}
  {walk : List (Nat × NodeId)}

/-! ### Walks -/

/-- The walk through some nodes of one depth and what makes up their contents: each node comes before
its parts, and the parts of a node come before the next one. -/
inductive Preorder (t : Tree) : Nat → List NodeId → List (Nat × NodeId) → Prop
  | nil (depth : Nat) : Preorder t depth [] []
  | cons {depth : Nat} {id : NodeId} {ids parts : List NodeId} {below rest : List (Nat × NodeId)}
      (children : t.children id = .ok parts) (down : Preorder t (depth + 1) parts below)
      (next : Preorder t depth ids rest) :
      Preorder t depth (id :: ids) ((depth, id) :: (below ++ rest))

/-- The walk with a stack: the node on top is visited, and its parts take its place.  `fuel` bounds the
number of visits. -/
def traverse (t : Tree) : Nat → List (Nat × NodeId) → List (Nat × NodeId)
  | _, [] => []
  | 0, _ :: _ => []
  | fuel + 1, (depth, id) :: stack =>
      (depth, id) :: traverse t fuel ((t.node id).body.active.map (depth + 1, ·) ++ stack)

/-- The children of a node are the parts that make up its content. -/
theorem active_of_children {parts : List NodeId} (h : t.children id = .ok parts) :
    (t.node id).body.active = parts := by
  obtain ⟨n, hn, h⟩ := Except.bind_eq_ok.1 h
  obtain ⟨-, -, rfl⟩ := lookup?_eq_some.1 (get_eq_ok.1 hn)
  exact Except.ok.inj h

namespace Preorder

/-- Walks of one depth follow each other. -/
theorem append {ids' : List NodeId} {walk' : List (Nat × NodeId)} (h : t.Preorder depth ids walk)
    (h' : t.Preorder depth ids' walk') : t.Preorder depth (ids ++ ids') (walk ++ walk') := by
  induction h with
  | nil => exact h'
  | cons hchildren hdown _ _ ihnext =>
      rw [List.cons_append, List.cons_append, List.append_assoc]
      exact .cons hchildren hdown (ihnext h')

/-- The walk visits what contributes to the contents of the nodes that it begins with. -/
theorem mem_iff (h : t.Preorder depth ids walk) :
    m ∈ walk.map Prod.snd ↔ ∃ id ∈ ids, t.ActiveBelow id m := by
  induction h with
  | nil => simp
  | @cons depth id ids parts below rest hchildren _ _ ihdown ihnext =>
      have hnode : t.ActiveBelow id m ↔ m = id ∨ ∃ c ∈ (t.node id).body.active, t.ActiveBelow c m :=
        activeBelow_iff
      simp only [List.map_cons, List.map_append, List.mem_cons, List.mem_append, ihdown, ihnext,
        exists_eq_or_imp, hnode, active_of_children hchildren, or_assoc]

/-- **A stack gives the same walk**: what is below the visited nodes on the stack comes afterwards. -/
theorem traverse_append (h : t.Preorder depth ids walk) (fuel : Nat) (stack : List (Nat × NodeId)) :
    t.traverse (walk.length + fuel) (ids.map (depth, ·) ++ stack) =
      walk ++ t.traverse fuel stack := by
  induction h generalizing fuel stack with
  | nil => simp
  | @cons depth id ids parts below rest hchildren _ _ ihdown ihnext =>
      have hvisits : ((depth, id) :: (below ++ rest)).length + fuel =
          (below.length + (rest.length + fuel)) + 1 := by
        simp only [List.length_cons, List.length_append]
        omega
      rw [hvisits, List.map_cons, List.cons_append, traverse, active_of_children hchildren, ihdown,
        ihnext, List.cons_append, List.append_assoc]

/-- A stack gives the same walk, with any number of visits that is large enough. -/
theorem traverse_eq (h : t.Preorder depth ids walk) {fuel : Nat} (hfuel : walk.length ≤ fuel) :
    t.traverse fuel (ids.map (depth, ·)) = walk := by
  obtain ⟨more, rfl⟩ := Nat.exists_eq_add_of_le hfuel
  simpa [traverse] using h.traverse_append more []

end Preorder

/-! ### Entries -/

/-- The field name of a node, as it was given. -/
def fieldText (t : Tree) (id : NodeId) : Text :=
  ((t.grammar.name? (t.node id).definition).getD "").toList

/-- The kind of a node and its definition. -/
def kindText (t : Tree) (id : NodeId) : String :=
  (t.node id).body.shape.display ++ " " ++ (t.node id).definition.display

/-- The entry of a node in an outline: two blanks for each level, the kind, the definition, the field
name, the state and the content. -/
def outlineEntry (t : Tree) (v : Nat × NodeId) : Text :=
  (indentation v.1 ++ kindText t v.2 ++
    (match t.grammar.name? (t.node v.2).definition with
      | some name => " " ++ name
      | none => "") ++
    stateText (t.node v.2) ++ contentText (t.node v.2)).toList

/-- The line of a node is its entry with a line feed. -/
theorem toList_outlineLine (t : Tree) (v : Nat × NodeId) :
    (outlineLine t.grammar v.1 (t.node v.2)).toList = t.outlineEntry v ++ ['\n'] :=
  String.toList_append

theorem breaks_indentation (depth : Nat) : breaks (indentation depth).toList = [] := by
  rw [indentation, String.toList_ofList]
  exact breaks_eq_nil_iff.2 fun c hc => (List.eq_of_mem_replicate hc) ▸ by decide

theorem breaks_stateText (n : Node) : breaks (stateText n).toList = [] := by
  rw [stateText]
  split
  · next index _ =>
      change breaks (" [" ++ toString index ++ "]").toList = []
      rw [breaks_after (by decide), breaks_before (by decide), breaks_natToString]
  · split <;> decide
  · decide

theorem breaks_contentText (n : Node) : breaks (contentText n).toList = [] := by
  rw [contentText]
  split
  · rw [breaks_before (by decide), String.toList_ofList, breaks_quote]
  · decide

/-- **The line breaks of an entry are those of the field name**, whatever the content is. -/
theorem breaks_outlineEntry (t : Tree) (v : Nat × NodeId) :
    breaks (t.outlineEntry v) = breaks (t.fieldText v.2) := by
  have hkind : breaks (kindText t v.2).toList = [] := by
    have hshape : breaks (t.node v.2).body.shape.display.toList = [] := by
      cases (t.node v.2).body.shape <;> decide
    rw [kindText, breaks_after (breaks_display _), breaks_after (by decide), hshape]
  have hbefore : breaks (indentation v.1 ++ kindText t v.2).toList = [] := by
    rw [breaks_before (breaks_indentation _), hkind]
  rw [outlineEntry, breaks_after (breaks_contentText _), breaks_after (breaks_stateText _),
    breaks_before hbefore, fieldText]
  cases t.grammar.name? (t.node v.2).definition with
  | none => rfl
  | some name => exact breaks_before (by decide) name

end Tree

open Tessera.Tree

variable {t : Tree} {parent : Option NodeId} {b c c' : Branch} {bs roots : List Branch}
  {id m n : NodeId}

/-! ### The walk of an outline -/

/-- Branches next to each other have no node in common. -/
theorem Branch.eq_of_mem_ids (h : (idsAll bs).Nodup) (hc : c ∈ bs) (hc' : c' ∈ bs) (hm : m ∈ c.ids)
    (hm' : m ∈ c'.ids) : c = c' := by
  induction bs with
  | nil => cases hc
  | cons b bs ih =>
      rw [idsAll_cons] at h
      have hdisjoint := List.disjoint_of_nodup_append h
      cases hc with
      | head =>
          cases hc' with
          | head => rfl
          | tail _ hc' => exact (hdisjoint hm (mem_idsAll.2 ⟨c', hc', hm'⟩)).elim
      | tail _ hc =>
          cases hc' with
          | head => exact (hdisjoint hm' (mem_idsAll.2 ⟨c, hc, hm⟩)).elim
          | tail _ hc' => exact ih h.of_append_right hc hc'

/-- A walk visits no node twice, and the outline has its lines. -/
structure Tree.Shown (t : Tree) (fuel depth : Nat) (ids : List NodeId) (walk : List (Nat × NodeId)) :
    Prop where
  preorder : t.Preorder depth ids walk
  nodup : (walk.map Prod.snd).Nodup
  lines_eq : ids.flatMap (t.outlineLines fuel depth) =
    walk.map fun v => outlineLine t.grammar v.1 (t.node v.2)

/-- Branches next to each other are shown one after the other. -/
theorem Branch.exists_shown {fuel depth : Nat} (hstands : ∀ b ∈ bs, b.Stands t parent)
    (hnodup : (idsAll bs).Nodup) (hshown : ∀ b ∈ bs, ∃ walk, t.Shown fuel depth [b.root] walk) :
    ∀ {ids : List NodeId}, ids.Nodup → (∀ x ∈ ids, x ∈ bs.map Branch.root) →
      ∃ walk, t.Shown fuel depth ids walk
  | [], _, _ => ⟨[], .nil _, List.nodup_nil, rfl⟩
  | x :: ids, hids, hroots => by
      obtain ⟨hx, hids'⟩ := List.nodup_cons.1 hids
      obtain ⟨hroot, hroots'⟩ := List.forall_mem_cons.1 hroots
      obtain ⟨rest, hrest⟩ := exists_shown hstands hnodup hshown hids' hroots'
      obtain ⟨c, hc, rfl⟩ := List.mem_map.1 hroot
      obtain ⟨walk, hwalk⟩ := hshown c hc
      refine ⟨walk ++ rest, hwalk.preorder.append hrest.preorder, ?_, ?_⟩
      · rw [List.map_append, List.nodup_append']
        refine ⟨hwalk.nodup, hrest.nodup, fun m hm hm' => hx ?_⟩
        -- a node of both walks would belong to the branches of two different parts
        obtain ⟨_, hroot', hbelow⟩ := hwalk.preorder.mem_iff.1 hm
        obtain rfl := List.mem_singleton.1 hroot'
        obtain ⟨y, hy, hbelow'⟩ := hrest.preorder.mem_iff.1 hm'
        obtain ⟨c', hc', rfl⟩ := List.mem_map.1 (hroots' y hy)
        rwa [eq_of_mem_ids hnodup hc hc' ((hstands c hc).below_iff.1 hbelow.below)
          ((hstands c' hc').below_iff.1 hbelow'.below)]
      · rw [← List.singleton_append, List.flatMap_append, hwalk.lines_eq, hrest.lines_eq,
          List.map_append]

/-- The walk of a branch that stands, and the lines of the outline along it. -/
theorem Branch.Stands.exists_shown (h : b.Stands t parent) (hlive : ∀ id ∈ b.ids, t.Live id)
    (hnodup : b.ids.Nodup) (depth : Nat) {fuel : Nat} (hfuel : b.ids.length ≤ fuel) :
    ∃ walk, t.Shown fuel depth [b.root] walk := by
  induction h generalizing depth fuel with
  | @fork _ id parts _ _ _ howned hstands ih =>
      obtain ⟨hid, hparts⟩ := List.nodup_cons.1 hnodup
      rw [ids_fork, List.length_cons] at hfuel
      obtain ⟨fuel, rfl⟩ : ∃ k, fuel = k + 1 := ⟨fuel - 1, by omega⟩
      have hroots : (parts.map Branch.root).Nodup := hparts.sublist (Branch.roots_sublist parts)
      have hshown : ∀ c ∈ parts, ∃ walk, t.Shown fuel (depth + 1) [c.root] walk := by
        intro c hc
        have hsub : ∀ m ∈ c.ids, m ∈ idsAll parts := fun m hm => mem_idsAll.2 ⟨c, hc, hm⟩
        have hlist : c.ids.Nodup ∧ c.ids.length ≤ (idsAll parts).length := by
          obtain ⟨l, r, rfl⟩ := List.append_of_mem hc
          rw [idsAll_append, idsAll_cons] at hparts ⊢
          refine ⟨hparts.of_append_right.of_append_left, ?_⟩
          simp only [List.length_append]
          omega
        exact ih c hc (fun m hm => hlive m (List.mem_cons_of_mem _ (hsub m hm))) hlist.1 (depth + 1)
          (by omega)
      have hactive : (t.node id).body.active.Nodup := Body.nodup_active (howned ▸ hroots)
      obtain ⟨below, hbelow⟩ := Branch.exists_shown hstands hparts hshown hactive
        (fun x hx => howned ▸ Body.owned_of_active hx)
      have hchildren := (hlive id List.mem_cons_self).children_eq
      refine ⟨(depth, id) :: below, ?_, ?_, ?_⟩
      · simpa using Preorder.cons hchildren hbelow.preorder (.nil depth)
      · refine List.nodup_cons.2 ⟨fun hmem => hid ?_, hbelow.nodup⟩
        obtain ⟨x, hx, hx'⟩ := hbelow.preorder.mem_iff.1 hmem
        obtain ⟨c, hc, rfl⟩ := List.mem_map.1 (howned ▸ Body.owned_of_active hx)
        exact mem_idsAll.2 ⟨c, hc, (hstands c hc).below_iff.1 hx'.below⟩
      · rw [List.flatMap_singleton, root_fork, outlineLines, hbelow.lines_eq, List.map_cons]

/-- **An outline has an entry for each node of the walk**, and no node is visited twice. -/
theorem Garden.exists_preorder (h : Garden t roots) (hn : t.Live n) :
    ∃ walk shown, t.Preorder 0 [n] walk ∧ (walk.map Prod.snd).Nodup ∧ t.outline n = .ok shown ∧
      shown.toList = terminated (walk.map t.outlineEntry) := by
  obtain ⟨b, c, hb, hin, rfl, hc⟩ := h.exists_branch (h.live_iff.1 hn)
  have hgrove := h.grove_of_inside hb hin hc
  have hslots := hgrove.apart.length_le
  rw [slotsAll, List.length_map, idsAll_cons, idsAll_nil, List.append_nil] at hslots
  have hnodup : c.ids.Nodup := .of_map NodeId.index (h.nodup_of_inside hb hin)
  have hlive : ∀ m ∈ c.ids, t.Live m :=
    fun m hm => h.live_iff.2 (mem_idsAll.2 ⟨b, hb, hin.subset hm⟩)
  obtain ⟨walk, hwalk⟩ := hc.exists_shown hlive hnodup 0 (Nat.le_succ_of_le hslots)
  refine ⟨walk, String.join (t.outlineLines (t.slots.size + 1) 0 c.root), hwalk.preorder,
    hwalk.nodup, by rw [outline, hn.get_eq]; rfl, ?_⟩
  have hlines := hwalk.lines_eq
  rw [List.flatMap_singleton] at hlines
  rw [String.toList_join, hlines, terminated, List.map_map, List.flatMap_map, List.flatMap_def]
  exact congrArg List.flatten (List.map_congr_left fun v _ => toList_outlineLine t v)

/-- What the lines of the outline of a node are, along the walk. -/
structure Tree.OutlinedByLines (t : Tree) (n : NodeId) (walk : List (Nat × NodeId)) (shown : String) :
    Prop where
  /-- The walk visits a node before its parts and the parts in the order of the content. -/
  preorder : t.Preorder 0 [n] walk
  /-- A stack gives the same walk. -/
  traverse_eq : ∀ fuel, walk.length ≤ fuel → t.traverse fuel [(0, n)] = walk
  /-- No node is visited twice. -/
  nodup : (walk.map Prod.snd).Nodup
  /-- The nodes of the active structure are visited. -/
  mem_iff : ∀ m, m ∈ walk.map Prod.snd ↔ t.ActiveBelow n m
  /-- An entry is indented by two blanks for each level. -/
  indented : ∀ v, List.replicate (2 * v.1) ' ' ++ (kindText t v.2).toList <+: t.outlineEntry v
  /-- Only the field name breaks the line of an entry. -/
  breaks_eq : ∀ v, breaks (t.outlineEntry v) = breaks (t.fieldText v.2)
  /-- There is a line for each node and one more for each line feed in a field name. -/
  length_eq : (lines shown.toList).length =
    walk.length + (walk.map fun v => (t.fieldText v.2).count '\n').sum
  /-- The lines are the entries in the order of the walk, if no field name has a line feed. -/
  lines_eq : (∀ v ∈ walk, '\n' ∉ t.fieldText v.2) → lines shown.toList = walk.map t.outlineEntry

theorem Garden.outlinedByLines (h : Garden t roots) (hn : t.Live n) :
    ∃ walk shown, t.outline n = .ok shown ∧ t.OutlinedByLines n walk shown := by
  obtain ⟨walk, shown, hwalk, hnodup, houtline, hshown⟩ := h.exists_preorder hn
  have hfeeds : ∀ v, (t.outlineEntry v).count '\n' = (t.fieldText v.2).count '\n' := by
    intro v
    rw [← count_breaks, breaks_outlineEntry, count_breaks]
  exact ⟨walk, shown, houtline, {
    preorder := hwalk
    traverse_eq := fun fuel hfuel => hwalk.traverse_eq hfuel
    nodup := hnodup
    mem_iff := fun m => by simp [hwalk.mem_iff]
    indented := fun v => by
      have hindent : (indentation v.1).toList = List.replicate (2 * v.1) ' ' := String.toList_ofList
      simp only [outlineEntry, String.append_assoc]
      rw [String.toList_append, String.toList_append, ← List.append_assoc, hindent]
      exact List.prefix_append _ _
    breaks_eq := t.breaks_outlineEntry
    length_eq := by
      rw [hshown, length_lines_terminated, List.length_map, List.map_map]
      exact congrArg (fun f => walk.length + (walk.map f).sum) (funext hfeeds)
    lines_eq := fun hnames => by
      rw [hshown, lines_terminated]
      intro line hline
      obtain ⟨v, hv, rfl⟩ := List.mem_map.1 hline
      exact List.count_eq_zero.1 ((hfeeds v).trans (List.count_eq_zero.2 (hnames v hv))) }⟩

namespace Session

/-- **Listings and outlines have the lines of their entries and one more for each line feed in a
pattern or a field name.**  A listing has an entry for each definition, which begins with the number of
the definition.  The outline of a live node, after any calls, has an entry for each node of its active
structure, in the order of the walk and indented by depth.  An entry is one line whatever line breaks
are in the literals, the default texts and the contents; only the source of a pattern and a field name
break it. -/
theorem entries_run {draft : Draft} {g : Grammar} (hbuild : draft.build = .ok g)
    (ops : List Operation) {t : Tree} (hrun : (run g ops).tree = t) :
    g.ListedByLines ∧ ∀ n, t.Live n →
      ∃ walk shown, t.outline n = .ok shown ∧ t.OutlinedByLines n walk shown := by
  subst hrun
  obtain ⟨-, -, roots, hgarden, -⟩ :=
    tended_run (Draft.build_valid hbuild) (Draft.build_ranked hbuild) ops
  exact ⟨g.listedByLines, fun n hn => hgarden.outlinedByLines hn⟩

/-- The four definitions of the rows take four lines, and the row of two letters has an outline. -/
theorem entries_run_row :
    rowDraft.build = .ok rowGrammar ∧ (lines rowGrammar.listing.toList).length = 4 ∧
      ∃ walk shown, rowTree.outline ⟨0, 0⟩ = .ok shown ∧ rowTree.Preorder 0 [⟨0, 0⟩] walk ∧
        (lines shown.toList).length = walk.length := by
  obtain ⟨hlisting, houtline⟩ := entries_run rowDraft_build rowOperations run_rowOperations
  have hlive : rowTree.Live ⟨0, 0⟩ := ⟨by decide, by decide, rfl⟩
  obtain ⟨walk, shown, hshown, hlines⟩ := houtline _ hlive
  refine ⟨rowDraft_build, hlisting.length_eq.trans (by decide), walk, shown, hshown, hlines.preorder, ?_⟩
  have hnameless : ∀ v, rowTree.fieldText v = [] := by
    intro v
    rw [fieldText, Grammar.name?]
    cases (rowTree.grammar.chain (rowTree.node v).definition).findSome? _ <;> rfl
  simp [hlines.length_eq, hnameless]

/-- A pattern with a line feed, and the same under a field name with a line feed. -/
def brokenDraft : Draft :=
  ⟨#[some (.pattern ['a', '\n', 'b']), some (.alias 0 (some 0))],
    ⟨#["x\ny"], (∅ : Std.HashMap _ _).insert "x\ny" 0⟩, {}, .standard⟩

/-- The grammar of the pattern and its field name. -/
def brokenGrammar : Grammar where
  rules := #[.pattern ['a', '\n', 'b'], .alias 0 (some 0)]
  resolved := #[0, 0]
  names := brokenDraft.names
  limits := {}
  engine := .standard
  acceptors := Acceptors.ofRules .standard #[.pattern ['a', '\n', 'b'], .alias 0 (some 0)] {}
    #[Engine.standard.whole? ['a', '\n', 'b'], none]

theorem brokenDraft_build : brokenDraft.build = .ok brokenGrammar := by with_unfolding_all rfl

/-- **Patterns and field names break lines**: two definitions are listed on four lines, and a node
without parts has an outline of two lines. -/
theorem broken_lines :
    brokenDraft.build = .ok brokenGrammar ∧ brokenGrammar.size = 2 ∧
      (lines brokenGrammar.listing.toList).length = 4 ∧
      ∃ t shown, (run brokenGrammar [.create 1]).tree = t ∧ t.children ⟨0, 0⟩ = .ok [] ∧
        t.outline ⟨0, 0⟩ = .ok shown ∧ (lines shown.toList).length = 2 := by
  have hcontains : (Tree.empty brokenGrammar).grammar.contains 1 = true := rfl
  have hrun : (run brokenGrammar [.create 1]).tree =
      ((Tree.empty brokenGrammar).allocFilled none 1).2 := by
    simp [run, step, Tree.perform, Tree.create, hcontains, Except.map, Change.map]
  have hlisting : brokenGrammar.listing =
      "#0 = pat /a\nb/\n#1 = field x\ny: #0\n" := by decide +kernel
  have houtline : ((Tree.empty brokenGrammar).allocFilled none 1).2.outline ⟨0, 0⟩ =
      .ok "leaf #1 x\ny unset\n" := by rfl
  exact ⟨brokenDraft_build, rfl, by rw [hlisting]; decide, _, _, hrun, rfl, houtline, by decide⟩

end Session

end Tessera
