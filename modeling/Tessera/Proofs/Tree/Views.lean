/-
**What a node shows.**

A node shows its definition, its content and what is selected in it, and the nodes that make up its
content show theirs.  All that is written down as a value of its own, without any handles, so that two
nodes can be compared whose trees have nothing to do with each other.  Nodes that are kept for later
use, listeners and the slots that the nodes lie in are not part of it.

A split says what a node shows that follows it.

Main definitions:

* `Tessera.View` — what a node and the nodes that make up its content show;
* `Tessera.Tree.Displays` — a node of a tree shows a view;
* `Tessera.Split.view` — what a node shows that follows a split.

Main results:

* `Tessera.Grove.displays_congr` — **only the nodes of its branch decide what a node shows**;
* `Tessera.Tree.Displays.outlineLines_eq` — **nodes that show the same have the same outline**.
-/

import Tessera.Proofs.Tree.Groves
import Tessera.Tree.Outline

set_option autoImplicit false

namespace Tessera

open Branch

/-- The kind of a node, what is selected in it, and how many parts it has. -/
inductive Selection
  | leaf
  | sequence (children : Nat)
  | choice (current : Option Nat)
  | optional (present : Bool)
  | loop (items : Nat)
  | separated (items separators : Nat)
  deriving DecidableEq, Repr

/-- What is selected in a node with these parts. -/
def Body.selection : Body → Selection
  | leaf => .leaf
  | sequence children => .sequence children.length
  | choice _ current => .choice current
  | optional _ present => .optional present
  | loop items => .loop items.length
  | separated items separators => .separated items.length separators.length

/-- What a node shows, with what the nodes show that make up its content. -/
inductive View
  | node (definition : DefId) (content : Option Text) (selection : Selection) (parts : List View)

namespace View

mutual

/-- The number of nodes on the longest way down. -/
def height : View → Nat
  | node _ _ _ parts => heightAll parts + 1

/-- The greatest height of several views. -/
def heightAll : List View → Nat
  | [] => 0
  | v :: vs => max v.height (heightAll vs)

end

theorem heightAll_le_iff {vs : List View} {n : Nat} :
    heightAll vs ≤ n ↔ ∀ v ∈ vs, v.height ≤ n := by
  induction vs with
  | nil => simp [heightAll]
  | cons v vs ih => simp only [heightAll, Nat.max_le, ih, List.forall_mem_cons]

end View

namespace Tree

mutual

/-- A node of a tree shows a view. -/
def Displays (t : Tree) : View → NodeId → Prop
  | .node d content selection parts, id =>
      (t.node id).definition = d ∧ (t.node id).content = content ∧
        (t.node id).body.selection = selection ∧ DisplayAll t parts (t.node id).body.active

/-- Nodes of a tree show views, one each. -/
def DisplayAll (t : Tree) : List View → List NodeId → Prop
  | [], [] => True
  | v :: vs, id :: ids => Displays t v id ∧ DisplayAll t vs ids
  | _, _ => False

end

variable {t t' : Tree} {id id' : NodeId} {ids ids' : List NodeId} {v w : View} {vs ws : List View}

/-- Each of several views is shown by one of the nodes. -/
theorem DisplayAll.exists_mem (h : t.DisplayAll vs ids) (hv : v ∈ vs) : ∃ c ∈ ids, t.Displays v c := by
  induction vs generalizing ids with
  | nil => simp at hv
  | cons w vs ih =>
      cases ids with
      | nil => exact h.elim
      | cons id ids =>
          rcases List.mem_cons.1 hv with rfl | hv
          · exact ⟨id, List.mem_cons_self, h.1⟩
          · obtain ⟨c, hc, hdisplays⟩ := ih h.2 hv
            exact ⟨c, List.mem_cons_of_mem _ hc, hdisplays⟩

/-- Items and separators in turn show what they show. -/
theorem DisplayAll.interleave (h : t.DisplayAll vs ids) (h' : t.DisplayAll ws ids') :
    t.DisplayAll (Tessera.interleave vs ws) (Tessera.interleave ids ids') := by
  induction vs generalizing ids ws ids' with
  | nil =>
      cases ids with
      | nil => exact h'
      | cons _ _ => exact h.elim
  | cons v vs ih =>
      cases ids with
      | nil => exact h.elim
      | cons id ids =>
          cases ws with
          | nil =>
              cases ids' with
              | nil => exact h
              | cons _ _ => exact h'.elim
          | cons w ws =>
              cases ids' with
              | nil => exact h'.elim
              | cons id' ids' => exact ⟨h.1, h'.1, ih h.2 h'.2⟩

/-! ### Outlines -/

/-- The line of a node tells what the node shows. -/
theorem outlineLine_congr {n n' : Node} (g : Grammar) (depth : Nat)
    (hdefinition : n.definition = n'.definition) (hcontent : n.content = n'.content)
    (hselection : n.body.selection = n'.body.selection) :
    outlineLine g depth n = outlineLine g depth n' := by
  have hkind : n.body.shape = n'.body.shape ∧ stateText n = stateText n' := by
    unfold stateText
    rw [hcontent]
    generalize n.body = body at hselection ⊢
    generalize n'.body = body' at hselection ⊢
    cases body <;> cases body' <;> simp only [Body.selection, reduceCtorEq] at hselection
    case choice.choice _ current _ current' =>
      obtain rfl := Selection.choice.inj hselection
      cases current <;> exact ⟨rfl, rfl⟩
    case optional.optional _ present _ present' =>
      obtain rfl := Selection.optional.inj hselection
      cases present <;> exact ⟨rfl, rfl⟩
    all_goals exact ⟨rfl, rfl⟩
  simp only [outlineLine, hdefinition, hkind.1, hkind.2, contentText, hcontent]

mutual

/-- **Nodes that show the same have the same outline**, in whatever trees they are. -/
theorem Displays.outlineLines_eq (hgrammar : t'.grammar = t.grammar) :
    ∀ {v : View} {id id' : NodeId} {fuel fuel' : Nat} (depth : Nat), t.Displays v id → t'.Displays v id' →
      v.height ≤ fuel → v.height ≤ fuel' →
      t.outlineLines fuel depth id = t'.outlineLines fuel' depth id'
  | .node d content selection parts, id, id', 0, _, _, _, _, hfuel, _ => by
      simp [View.height] at hfuel
  | .node d content selection parts, id, id', _ + 1, 0, _, _, _, _, hfuel' => by
      simp [View.height] at hfuel'
  | .node d content selection parts, id, id', fuel + 1, fuel' + 1, depth, h, h', hfuel, hfuel' => by
      obtain ⟨hd, hcontent, hselection, hparts⟩ := h
      obtain ⟨hd', hcontent', hselection', hparts'⟩ := h'
      have hrest := DisplayAll.outlineLines_eq hgrammar (depth + 1) hparts hparts'
        (Nat.le_of_succ_le_succ hfuel) (Nat.le_of_succ_le_succ hfuel')
      simp only [outlineLines, hgrammar, hrest]
      rw [outlineLine_congr _ depth (hd.trans hd'.symm) (hcontent.trans hcontent'.symm)
        (hselection.trans hselection'.symm)]

theorem DisplayAll.outlineLines_eq (hgrammar : t'.grammar = t.grammar) :
    ∀ {vs : List View} {ids ids' : List NodeId} {fuel fuel' : Nat} (depth : Nat),
      t.DisplayAll vs ids → t'.DisplayAll vs ids' → View.heightAll vs ≤ fuel →
      View.heightAll vs ≤ fuel' →
      ids.flatMap (t.outlineLines fuel depth) = ids'.flatMap (t'.outlineLines fuel' depth)
  | [], [], [], _, _, _, _, _, _, _ => rfl
  | _ :: _, _ :: _, _ :: _, _, _, depth, ⟨h, hs⟩, ⟨h', hs'⟩, hfuel, hfuel' => by
      rw [View.heightAll, Nat.max_le] at hfuel hfuel'
      rw [List.flatMap_cons, List.flatMap_cons,
        Displays.outlineLines_eq hgrammar depth h h' hfuel.1 hfuel'.1,
        DisplayAll.outlineLines_eq hgrammar depth hs hs' hfuel.2 hfuel'.2]

end

end Tree

/-! ### Branches -/

variable {t t' : Tree} {parent : Option NodeId} {id : NodeId} {ids : List NodeId} {b : Branch}
  {bs ps : List Branch} {v : View} {vs : List View} {w : Text}

/-- A view is not higher than the branch of its node has nodes. -/
theorem Branch.Stands.height_le (h : b.Stands t parent) (hv : t.Displays v b.root) :
    v.height ≤ b.ids.length := by
  induction h generalizing v with
  | @fork _ id parts _ _ _ howned _ ih =>
      obtain ⟨d, content, selection, vs⟩ := v
      obtain ⟨-, -, -, hvs⟩ := hv
      rw [View.height, ids_fork, List.length_cons]
      refine Nat.succ_le_succ (View.heightAll_le_iff.2 fun u hu => ?_)
      obtain ⟨c, hc, hu⟩ := hvs.exists_mem hu
      have hmem := Body.owned_of_active hc
      rw [root_fork, howned] at hmem
      obtain ⟨b, hb, rfl⟩ := List.mem_map.1 hmem
      refine Nat.le_trans (ih b hb hu) ?_
      obtain ⟨l, r, rfl⟩ := List.append_of_mem hb
      simp only [idsAll_append, idsAll_cons, List.length_append]
      omega

mutual

/-- **Only the nodes of its branch decide what a node shows.** -/
theorem Grove.displays_congr (h : Grove t parent bs) (hsame : ∀ x ∈ idsAll bs, t'.node x = t.node x) :
    ∀ {v : View} {id : NodeId}, id ∈ idsAll bs → t.Displays v id → t'.Displays v id
  | .node _ _ _ _, id, hid, ⟨hd, hcontent, hselection, hparts⟩ => by
      rw [Tree.Displays, hsame id hid]
      exact ⟨hd, hcontent, hselection, h.displayAll_congr hsame
        (fun c hc => (h.owned_mem hid (Body.owned_of_active hc)).1) hparts⟩

theorem Grove.displayAll_congr (h : Grove t parent bs)
    (hsame : ∀ x ∈ idsAll bs, t'.node x = t.node x) :
    ∀ {vs : List View} {ids : List NodeId}, (∀ c ∈ ids, c ∈ idsAll bs) → t.DisplayAll vs ids →
      t'.DisplayAll vs ids
  | [], [], _, _ => trivial
  | _ :: _, id :: _, hids, ⟨hv, hvs⟩ =>
      ⟨h.displays_congr hsame (hids id List.mem_cons_self) hv,
        h.displayAll_congr hsame (fun c hc => hids c (List.mem_cons_of_mem _ hc)) hvs⟩

end

/-- A node that receives a content shows it, and its parts show what they showed. -/
theorem Opened.displays_store (h : Opened t parent id ps)
    (howned : (t.node id).body.owned = ps.map Branch.root)
    (hvs : t.DisplayAll vs (t.node id).body.active) :
    (t.modify id fun n => { n with content := some w }).Displays
      (.node (t.node id).definition (some w) (t.node id).body.selection vs) id := by
  obtain ⟨-, hself, hparts⟩ :=
    h.modify (f := fun n => { n with content := some w }) ⟨rfl, rfl, rfl⟩ rfl
  rw [Tree.Displays, hself]
  refine ⟨rfl, rfl, rfl, h.grove.displayAll_congr hparts (fun c hc => ?_) hvs⟩
  have hmem := Body.owned_of_active hc
  rw [howned] at hmem
  obtain ⟨b, hb, rfl⟩ := List.mem_map.1 hmem
  exact mem_idsAll.2 ⟨b, hb, b.root_mem_ids⟩

/-! ### Splits -/

mutual

/-- What a node of a definition shows that follows the split. -/
def Split.view (g : Grammar) (text : Text) : Split → DefId → View
  | .leaf span, d => .node d (some (slice text span.start span.stop)) .leaf []
  | .sequence span parts, d =>
      .node d (some (slice text span.start span.stop)) (.sequence parts.length)
        (viewAll g text parts (g.shape d).references)
  | .choice span index inner, d =>
      .node d (some (slice text span.start span.stop)) (.choice (some index))
        [view g text inner ((g.shape d).references.getD index 0)]
  | .absent span, d =>
      .node d (some (slice text span.start span.stop)) (.optional false) []
  | .present span inner, d =>
      .node d (some (slice text span.start span.stop)) (.optional true)
        [view g text inner ((g.shape d).references.getD 0 0)]
  | .loop span items, d =>
      .node d (some (slice text span.start span.stop)) (.loop items.length)
        (viewEach g text items ((g.shape d).references.getD 0 0))
  | .separated span items separators, d =>
      .node d (some (slice text span.start span.stop)) (.separated items.length separators.length)
        (interleave (viewEach g text items ((g.shape d).references.getD 0 0))
          (viewEach g text separators ((g.shape d).references.getD 1 0)))

/-- What nodes of the definitions show that follow the splits, one each. -/
def Split.viewAll (g : Grammar) (text : Text) : List Split → List DefId → List View
  | s :: ss, d :: ds => view g text s d :: viewAll g text ss ds
  | _, _ => []

/-- What nodes of the one definition show that follow the splits, one each. -/
def Split.viewEach (g : Grammar) (text : Text) : List Split → DefId → List View
  | [], _ => []
  | s :: ss, d => view g text s d :: viewEach g text ss d

end

end Tessera
