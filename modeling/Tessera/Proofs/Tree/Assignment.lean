/-
**Assigning a split.**

A node that follows a split stands afterwards with all its parts in order, holds the text over the
range of the split, and shows what the split says, whatever it showed before; and the reports name
exactly the nodes that make up this text.  There is one lemma for each kind of node; all of them end
with the node receiving its content after its parts.

Main definitions:

* `Tessera.Edit.Assigns` — what is to be shown of a split;
* `Tessera.Edit.Chosen` — the alternatives of a choice around a chosen one, and their parts;
* `Tessera.Edit.Beside` — parts next to some others were cleared.

Main results:

* `Tessera.Edit.assigns` — **a node follows a split**;
* `Tessera.Edit.spawn_makes` — a new node follows a split;
* `Tessera.Tree.allocFilled_sprouted` — a new node with its default content is in order.
-/

import Tessera.Proofs.Search.Derivations
import Tessera.Proofs.Search.Soundness
import Tessera.Proofs.Tree.Clearing
import Tessera.Proofs.Tree.Reports
import Tessera.Proofs.Tree.Views

set_option autoImplicit false

namespace Tessera

open Branch Tessera.Tree

variable {g : Grammar} {text : Text} {t t' : Tree} {parent : Option NodeId} {id : NodeId}
  {b : Branch} {bs bs' cs cs' l l' r r' ps ps' : List Branch} {freed freed' : List Nat}
  {ns : List Notice} {texts : List Text} {e e' e'' e₀ : Edit}

/-! ### Texts of parts -/

/-- No separator is left over when there are no more of them than items. -/
theorem Body.interleave_eq {items separators : List NodeId}
    (h : separators.length ≤ items.length) :
    Body.interleave items separators = Tessera.interleave items separators := by
  induction items generalizing separators with
  | nil =>
      obtain rfl : separators = [] := List.length_eq_zero_iff.1 (Nat.le_zero.1 h)
      rfl
  | cons item items ih =>
      cases separators with
      | nil =>
          rw [Body.interleave, ih (Nat.zero_le _)]
          cases items <;> rfl
      | cons separator separators =>
          rw [Body.interleave, ih (by simpa using h), Tessera.interleave]

namespace Tree

/-- The contents of several roots are the texts that they received. -/
theorem contents_roots (h : bs.map (fun b => (t.node b.root).content) = texts.map some) :
    t.contents (bs.map Branch.root) = texts.flatten := by
  induction bs generalizing texts with
  | nil =>
      obtain rfl : texts = [] := List.map_eq_nil_iff.1 h.symm
      rfl
  | cons b bs ih =>
      cases texts with
      | nil => simp at h
      | cons w texts =>
          simp only [List.map_cons, List.cons.injEq] at h
          have := ih h.2
          simp only [contents, List.map_cons, List.flatMap_cons, List.flatten_cons] at this ⊢
          rw [this, h.1, Option.getD_some]

/-- As many texts were received as there are branches. -/
theorem length_roots (h : bs.map (fun b => (t.node b.root).content) = texts.map some) :
    bs.length = texts.length := by
  simpa using congrArg List.length h

/-- The roots hold contents when they received texts. -/
theorem isSome_of_roots (h : bs.map (fun b => (t.node b.root).content) = texts.map some)
    {c : NodeId} (hc : c ∈ bs.map Branch.root) : (t.node c).content.isSome := by
  obtain ⟨b, hb, rfl⟩ := List.mem_map.1 hc
  have hmem : (t.node b.root).content ∈ bs.map fun b => (t.node b.root).content :=
    List.mem_map_of_mem hb
  rw [h] at hmem
  obtain ⟨w, -, hw⟩ := List.mem_map.1 hmem
  rw [← hw]
  rfl

end Tree

/-! ### The last step -/

/-- A node is in order once it receives the content that its parts make up. -/
theorem Opened.sound_store (h : Opened t parent id ps) {w : Text}
    (howned : (t.node id).body.owned = ps.map Branch.root) (hformed : t.Formed id)
    (hset : ∀ c ∈ (t.node id).body.active, (t.node c).content.isSome)
    (hchosen : ∀ alternatives current, (t.node id).body = .choice alternatives current →
      current.isSome)
    (hadmitted : ∀ r, (t.shapeOf id).repetition? = some r →
      r.admits (t.node id).body.items.length = true)
    (hcomposed : if (t.shapeOf id).isLeaf then t.grammar.LeafFits (t.node id).definition w
      else w = t.contents (t.node id).body.active) :
    (t.modify id fun n => { n with content := some w }).Sound id := by
  obtain ⟨hr, hself, hparts⟩ :=
    h.modify (f := fun n => { n with content := some w }) ⟨rfl, rfl, rfl⟩ rfl
  have hpart : ∀ c ∈ (t.node id).body.owned,
      (t.modify id fun n => { n with content := some w }).node c = t.node c := by
    intro c hc
    rw [howned] at hc
    exact hparts c (Grove.root_mem hc)
  have hshape : (t.modify id fun n => { n with content := some w }).shapeOf id = t.shapeOf id := by
    rw [shapeOf, shapeOf, hself]
    rfl
  refine ⟨?_, ⟨?_, ?_, ?_, ?_⟩, ?_⟩
  · refine hformed.congr hr.rework.grammar ⟨?_, ?_, ?_, ?_⟩ fun c hc => by rw [hpart c hc]
    all_goals rw [hself]
  · simp [hself]
  · intro _ c hc
    rw [hself] at hc
    rw [hpart c (Body.owned_of_active hc)]
    exact hset c hc
  · intro _
    rw [hself]
    exact hchosen
  · intro _
    rw [hself, hshape]
    exact hadmitted
  · intro w' hw'
    rw [hself] at hw'
    obtain rfl : w = w' := Option.some.inj hw'
    have hcontents : (t.modify id fun n => { n with content := some w }).contents
        (t.node id).body.active = t.contents (t.node id).body.active :=
      contents_congr fun c hc => by rw [hpart c (Body.owned_of_active hc)]
    rw [hshape, hself, hcontents]
    exact hcomposed

namespace Edit

/-- The parts of an opened node are changed, and none of them receives a content. -/
theorem Works.of_reopened (hre : Reopened e.tree e'.tree parent id ps ps' freed)
    (hcontent : (e'.tree.node id).content = (e.tree.node id).content)
    (hnotices : e'.notices = e.notices) (hle : ∀ i, freed.count i ≤ (slotsAll ps).count i)
    (hbare : e.tree.Bare [.fork id ps] → freed = []) : e.Works e' parent id ps ps' [] freed [] :=
  ⟨hre, hcontent, hle, hbare, hnotices, List.nil_sublist _, .nil, .nil, .nil⟩

/-- The parts of an opened node are changed, and then some of them receive contents. -/
theorem Works.of_makes
    (hre : Reopened e.tree e'.tree parent id ps (l ++ cs ++ r) freed)
    (hcontent : (e'.tree.node id).content = (e.tree.node id).content)
    (hnotices : e'.notices = e.notices) (h : e'.Makes e'' (some id) cs cs' texts freed' ns)
    (hold : ∀ x ∈ idsAll cs, (e'.tree.node x).listeners ≠ [] →
      (e'.tree.node x).content = (e.tree.node x).content)
    (hle : ∀ i, (freed ++ freed').count i ≤ (slotsAll ps).count i)
    (hbare : e.tree.Bare [.fork id ps] → freed ++ freed' = [])
    (hdiscards : Discards e.tree e''.tree ps (cs'.map Branch.root)) :
    e.Works e'' parent id ps (l ++ cs' ++ r) cs' (freed ++ freed') ns ∧
      e''.tree.node id = e'.tree.node id := by
  obtain ⟨hstep, hself⟩ := hre.opened.step h.regrown
  refine ⟨⟨hre.trans hstep, by rw [hself, hcontent], hle, hbare, by rw [h.notices, hnotices],
    ?_, ?_, hdiscards, h.compact⟩, hself⟩
  · exact (List.sublist_append_right l cs').trans (List.sublist_append_left (l ++ cs') r)
  · refine h.reported.since h.regrown.grove fun x hx hheard => ?_
    obtain ⟨hmem, hkept, hfree, hsize⟩ := h.regrown.rework.heard (index_mem_slotsAll hx) hheard
    obtain ⟨y, hy, hxy⟩ := List.mem_map.1 hmem
    have hlisteners := (h.regrown.rework.persists _ hsize hfree hkept).listeners
    have hy' := hold y hy
    rw [node_eq_slot, node_eq_slot, hxy, ← hlisteners] at hy'
    exact hy' hheard

/-- All parts receive contents. -/
theorem Works.of_makes_all (hre : Reopened e.tree e'.tree parent id ps cs freed)
    (hcontent : (e'.tree.node id).content = (e.tree.node id).content)
    (hnotices : e'.notices = e.notices) (h : e'.Makes e'' (some id) cs cs' texts freed' ns)
    (hold : ∀ x ∈ idsAll cs, (e'.tree.node x).listeners ≠ [] →
      (e'.tree.node x).content = (e.tree.node x).content)
    (hle : ∀ i, (freed ++ freed').count i ≤ (slotsAll ps).count i)
    (hbare : e.tree.Bare [.fork id ps] → freed ++ freed' = [])
    (hdiscards : Discards e.tree e''.tree ps (cs'.map Branch.root)) :
    e.Works e'' parent id ps cs' cs' (freed ++ freed') ns ∧ e''.tree.node id = e'.tree.node id := by
  have hre' : Reopened e.tree e'.tree parent id ps ([] ++ cs ++ []) freed := by simpa using hre
  simpa using Works.of_makes hre' hcontent hnotices h hold hle hbare hdiscards

/-- **A node with new parts receives the content that its active parts make up**, and with that it has
followed its split. -/
theorem Works.finish {split : Split} {views : List View}
    (h : e.Works e' parent id ps ps' cs freed ns)
    (hopened : Opened e.tree parent id ps)
    (hassign : assign text split id e = e'.store id (split.content text))
    (howned : (e'.tree.node id).body.owned = ps'.map Branch.root)
    (hactive : (e'.tree.node id).body.active = cs'.map Branch.root)
    (hdone : ∀ c, c ∈ cs'.map Branch.root ↔ c ∈ cs.map Branch.root)
    (hcontents : cs'.map (fun b => (e'.tree.node b.root).content) = texts.map some)
    (htext : split.content text = texts.flatten) (hformed : e'.tree.Formed id)
    (hleaf : ¬ (e'.tree.shapeOf id).isLeaf = true)
    (hspare : ∀ c, e'.tree.Spare id c →
      c ∈ (e.tree.node id).body.kept ∧ (e'.tree.Blank c ↔ e.tree.LeavesBlank id c))
    (hcompact : e'.tree.Compact id)
    (hchosen : ∀ alternatives current, (e'.tree.node id).body = .choice alternatives current →
      current.isSome)
    (hadmitted : ∀ r, (e'.tree.shapeOf id).repetition? = some r →
      r.admits (e'.tree.node id).body.items.length = true)
    (hview : split.view g text (e.tree.node id).definition = .node (e'.tree.node id).definition
      (some (split.content text)) (e'.tree.node id).body.selection views)
    (hdisplays : e'.tree.DisplayAll views (e'.tree.node id).body.active) :
    ∃ b freed ns, b.root = id ∧
      e.Makes (assign text split id e) parent [.fork id ps] [b] [split.content text] freed ns ∧
      (assign text split id e).tree.Displays (split.view g text (e.tree.node id).definition) id := by
  have hset : ∀ c ∈ (e'.tree.node id).body.active, (e'.tree.node c).content.isSome := by
    intro c hc
    rw [hactive] at hc
    exact isSome_of_roots hcontents hc
  have hsound : (e'.store id (split.content text)).tree.Sound id := by
    refine h.reopened.opened.sound_store howned hformed hset hchosen hadmitted ?_
    rw [if_neg hleaf, hactive, contents_roots hcontents, htext]
  obtain ⟨ns', hmakes⟩ := h.store hopened howned (fun c => by rw [hactive, hdone]) hspare hcompact
    hsound
  rw [hassign, hview]
  exact ⟨.fork id ps', freed, ns', rfl, hmakes, h.reopened.opened.displays_store howned hdisplays⟩

/-! ### One case for each kind of node -/

/-- A node follows a split, and shows what the split says. -/
def Assigns (g : Grammar) (text : Text) (split : Split) : Prop :=
  ∀ (e : Edit) (parent : Option NodeId) (b : Branch), e.tree.grammar = g → Grove e.tree parent [b] →
    split.Fits g text (e.tree.node b.root).definition →
    ∃ b' freed ns, b'.root = b.root ∧
      e.Makes (assign text split b.root e) parent [b] [b'] [split.content text] freed ns ∧
      (assign text split b.root e).tree.Displays
        (split.view g text (e.tree.node b.root).definition) b.root

/-- Nodes follow the parts of a split, one each. -/
def AssignsEach (g : Grammar) (text : Text) (parts : List Split) : Prop :=
  ∀ (e : Edit) (parent : Option NodeId) (bs : List Branch), e.tree.grammar = g →
    Grove e.tree parent bs →
    Split.FitAll g text parts (bs.map fun b => (e.tree.node b.root).definition) →
    ∃ bs' freed ns, bs'.map Branch.root = bs.map Branch.root ∧
      e.Makes (assignEach text parts (bs.map Branch.root) e) parent bs bs'
        (parts.map (Split.content text)) freed ns ∧
      (assignEach text parts (bs.map Branch.root) e).tree.DisplayAll
        (Split.viewAll g text parts (bs.map fun b => (e.tree.node b.root).definition))
        (bs.map Branch.root)

/-- New nodes follow the parts of a split, one each. -/
def SpawnsEach (g : Grammar) (text : Text) (parts : List Split) : Prop :=
  ∀ (e e' : Edit) (parent : NodeId) (d : DefId) (ids : List NodeId), e.tree.grammar = g →
    e.tree.Apart [] → Split.FitEach g text parts d → spawnEach text parts d parent e = (ids, e') →
    ∃ bs' ns, bs'.map Branch.root = ids ∧
      e.Makes e' (some parent) [] bs' (parts.map (Split.content text)) [] ns ∧
      (∀ c ∈ ids, (e'.tree.node c).definition = d) ∧
      e'.tree.DisplayAll (Split.viewEach g text parts d) ids

theorem assign_leaf {span : Span} : Assigns g text (.leaf span) := by
  rintro e parent ⟨id, ps⟩ rfl hgrove hfits
  obtain ⟨hopened, howned, hsound⟩ := Opened.of_grove hgrove
  rw [root_fork, Split.Fits] at hfits
  have hleaf : (e.tree.shapeOf id).isLeaf = true := by
    have hfits := hfits.2
    unfold Grammar.LeafFits at hfits
    unfold shapeOf
    split at hfits <;> simp_all [Rule.isLeaf]
  have hbody := (formed_leaf_iff hleaf).1 hsound.formed
  have hworks : e.Works e parent id ps ps [] [] [] :=
    .of_reopened (.refl hopened) rfl rfl (by simp) fun _ => rfl
  have hsound' : (e.store id (slice text span.start span.stop)).tree.Sound id := by
    refine hopened.sound_store howned hsound.formed ?_ ?_ ?_ ?_
    · simp [hbody, Body.active]
    · simp [hbody]
    · intro r hr
      cases hshape : e.tree.shapeOf id <;> simp_all [Rule.isLeaf, Rule.repetition?]
    · rw [if_pos hleaf]
      exact hfits.2
  obtain ⟨ns, hmakes⟩ := hworks.store hopened howned (by simp [hbody, Body.active])
    (by simp [Spare, hbody, Body.kept]) (.of_body hbody rfl rfl) hsound'
  have hdisplays : (e.store id (slice text span.start span.stop)).tree.Displays
      (.node (e.tree.node id).definition _ (e.tree.node id).body.selection []) id :=
    hopened.displays_store howned (by rw [hbody]; trivial)
  rw [hbody] at hdisplays
  exact ⟨.fork id ps, [], ns, rfl, hmakes, hdisplays⟩

theorem assign_sequence {span : Span} {parts : List Split} (hparts : AssignsEach g text parts) :
    Assigns g text (.sequence span parts) := by
  rintro e parent ⟨id, ps⟩ hg hgrove hfits
  obtain ⟨hopened, howned, hsound⟩ := Opened.of_grove hgrove
  rw [root_fork, Split.Fits] at hfits
  obtain ⟨hrange, htiles, items, hrule, hall⟩ := hfits
  have hshape : e.tree.shapeOf id = .sequence items := by
    rw [shapeOf, hg]
    exact hrule
  obtain ⟨children, hbody, hdefs⟩ := (formed_sequence_iff hshape).1 hsound.formed
  obtain rfl : children = ps.map Branch.root := by
    rw [hbody] at howned
    exact howned
  have hfit : Split.FitAll g text parts (ps.map fun b => (e.tree.node b.root).definition) := by
    rw [← hdefs, List.map_map] at hall
    exact hall
  obtain ⟨ps', freed, ns, hroots, hmakes, hdisplays⟩ := hparts e (some id) ps hg hopened.grove hfit
  obtain ⟨hworks, hself⟩ := Works.of_makes_all (.refl hopened) rfl rfl hmakes (fun _ _ _ => rfl)
    hmakes.spared.le (fun hbare => hmakes.bare fun x hx => hbare x (by simp [hx])) hmakes.discards
  rw [List.nil_append] at hworks
  have hassign : assign text (.sequence span parts) id e =
      (assignEach text parts (ps.map Branch.root) e).store id (slice text span.start span.stop) := by
    simp only [assign, hbody]
  have hbody' : ((assignEach text parts (ps.map Branch.root) e).tree.node id).body =
      .sequence (ps'.map Branch.root) := by
    rw [hself, hbody, hroots]
  have hshape' : (assignEach text parts (ps.map Branch.root) e).tree.shapeOf id =
      .sequence items := by
    rw [← hshape, shapeOf, shapeOf, hself, hworks.reopened.rework.grammar]
  have hdefs' : ∀ c ∈ ps.map Branch.root,
      ((assignEach text parts (ps.map Branch.root) e).tree.node c).definition =
        (e.tree.node c).definition := by
    intro c hc
    obtain ⟨hmem, hkept⟩ := hmakes.spared.of_mem hc
    exact (hworks.reopened.persists hopened hmem hkept).definition
  have hformed : (assignEach text parts (ps.map Branch.root) e).tree.Formed id := by
    refine (formed_sequence_iff hshape').2 ⟨_, hbody', ?_⟩
    rw [hroots, ← hdefs]
    exact List.map_congr_left hdefs'
  have hlength : (ps'.map Branch.root).length = parts.length := by
    rw [List.length_map, length_roots hmakes.contents, List.length_map]
  have hview : (Split.sequence span parts).view g text (e.tree.node id).definition =
      .node ((assignEach text parts (ps.map Branch.root) e).tree.node id).definition
        (some (slice text span.start span.stop))
        ((assignEach text parts (ps.map Branch.root) e).tree.node id).body.selection
        (Split.viewAll g text parts (ps.map fun b => (e.tree.node b.root).definition)) := by
    have hitems : items = ps.map fun b => (e.tree.node b.root).definition := by
      rw [← hdefs, List.map_map]
      rfl
    rw [Split.view, hrule, hbody', Body.selection, hlength, hself, ← hitems]
    rfl
  exact hworks.finish hopened hassign (by rw [hbody']; rfl) (by rw [hbody']; rfl) (fun _ => .rfl)
    hmakes.contents (htiles.flatten hrange.left (Split.fitAll_isRange hall)).symm hformed
    (by simp [hshape', Rule.isLeaf]) (by simp [Spare, hbody', Body.kept]) (.of_body hbody' rfl rfl)
    (by simp [hbody']) (by simp [hshape', Rule.repetition?]) hview (by rwa [hbody', Body.active, hroots])

/-! ### Alternatives and their parts -/

/-- The alternatives of a choice around a chosen one, and the parts that they have. -/
structure Chosen (before : List (Option NodeId)) (existing : Option NodeId)
    (after : List (Option NodeId)) (l cs r : List Branch) : Prop where
  left : before.filterMap (fun c => c) = l.map Branch.root
  middle : existing.toList = cs.map Branch.root
  right : after.filterMap (fun c => c) = r.map Branch.root

theorem exists_chosen {alternatives : List (Option NodeId)} {index : Nat}
    (hindex : index < alternatives.length)
    (howned : alternatives.filterMap (fun c => c) = ps.map Branch.root) :
    ∃ before existing after l cs r, alternatives = before ++ existing :: after ∧
      before.length = index ∧ ps = l ++ cs ++ r ∧ Chosen before existing after l cs r := by
  obtain ⟨before, existing, after, rfl, hlength⟩ : ∃ before existing after,
      alternatives = before ++ existing :: after ∧ before.length = index :=
    ⟨alternatives.take index, alternatives[index], alternatives.drop (index + 1), by simp,
      by simp; omega⟩
  have hparts : before.filterMap (fun c => c) ++ (existing.toList ++ after.filterMap fun c => c) =
      ps.map Branch.root := by
    rw [← howned]
    cases existing <;> simp
  obtain ⟨l, ps', rfl, hl, hps'⟩ := List.map_eq_append_iff.1 hparts.symm
  obtain ⟨cs, r, rfl, hcs, hr⟩ := List.map_eq_append_iff.1 hps'
  exact ⟨before, existing, after, l, cs, r, rfl, hlength, by simp, hl.symm, hcs.symm, hr.symm⟩

namespace Chosen

variable {before after : List (Option NodeId)} {existing : Option NodeId}

/-- All other alternatives lie among the parts on both sides. -/
theorem mem_others (h : Chosen before existing after l cs r) {i : Nat} {c : NodeId}
    (hne : i ≠ before.length) (hget : (before ++ existing :: after)[i]? = some (some c)) :
    c ∈ (l ++ r).map Branch.root := by
  rw [List.map_append, ← h.left, ← h.right, List.mem_append]
  rcases Nat.lt_or_gt_of_ne hne with hlt | hgt
  · rw [List.getElem?_append_left hlt] at hget
    exact .inl (List.mem_filterMap.2 ⟨some c, List.mem_of_getElem? hget, rfl⟩)
  · obtain ⟨k, rfl⟩ : ∃ k, i = before.length + (k + 1) := ⟨i - before.length - 1, by omega⟩
    have hk : after[k]? = some (some c) := by
      rw [List.getElem?_append_right (by omega)] at hget
      simpa using hget
    exact .inr (List.mem_filterMap.2 ⟨some c, List.mem_of_getElem? hk, rfl⟩)

/-- The parts on both sides are alternatives. -/
theorem mem_alternatives (h : Chosen before existing after l cs r) {c : NodeId}
    (hc : c ∈ (l ++ r).map Branch.root) : some c ∈ before ++ existing :: after := by
  rw [List.map_append, ← h.left, ← h.right, List.mem_append] at hc
  simp only [List.mem_filterMap, exists_eq_right] at hc
  simp only [List.mem_append, List.mem_cons]
  tauto

end Chosen

/-- Parts next to the parts `cs` of an opened node may have been cleared, and no notice was given. -/
structure Beside (e e' : Edit) (parent : Option NodeId) (id : NodeId) (l cs r l' r' : List Branch)
    (freed : List Nat) : Prop where
  left : l'.map Branch.root = l.map Branch.root
  right : r'.map Branch.root = r.map Branch.root
  reopened : Reopened e.tree e'.tree parent id (l ++ cs ++ r) (l' ++ cs ++ r') freed
  self : e'.tree.node id = e.tree.node id
  notices : e'.notices = e.notices
  spared : Spared (l ++ r) freed
  middle : ∀ y ∈ idsAll cs, e'.tree.node y = e.tree.node y

namespace Beside

theorem refl (ho : Opened e.tree parent id (l ++ cs ++ r)) : e.Beside e parent id l cs r l r [] :=
  ⟨rfl, rfl, .refl ho, rfl, rfl, .nil _, fun _ _ => rfl⟩

/-- One of the parts next to `cs` is cleared. -/
theorem of_reset (ho : Opened e.tree parent id (l ++ cs ++ r)) {c : NodeId}
    (hc : c ∈ (l ++ r).map Branch.root) :
    ∃ l' r' freed, e.Beside (e.onTree fun t => t.reset c) parent id l cs r l' r' freed ∧
      ∀ x ∈ (l ++ r).map Branch.root,
        (e.tree.reset c).Blank x ↔ if x = c then e.tree.Clearable x else e.tree.Blank x := by
  obtain ⟨l₁, p, r₁, hlr, rfl⟩ := exists_part hc
  have hperm : (l ++ cs ++ r).Perm (cs ++ l₁ ++ [p] ++ r₁) :=
    (middle_perm l cs r).trans (.of_eq (by rw [hlr]; simp))
  have ho' := ho.perm hperm
  obtain ⟨p', freed, hroot, hreset, hspared, -, -, hblank⟩ := reset_regrown ho'.grove.left.right
  obtain ⟨hre, hself⟩ := ho'.step hreset
  have hroots : (l₁ ++ p' :: r₁).map Branch.root = l.map Branch.root ++ r.map Branch.root := by
    rw [← List.map_append, hlr]
    simp [hroot]
  obtain ⟨l', r', hl'r', hl', hr'⟩ := List.map_eq_append_iff.1 hroots
  have hperm' : (l' ++ cs ++ r').Perm (cs ++ l₁ ++ [p'] ++ r₁) :=
    (middle_perm l' cs r').trans (.of_eq (by rw [← hl'r']; simp))
  have hspared' : Spared (l₁ ++ [p] ++ r₁) freed := hspared.among (ho'.grove.apart.mono fun i => by
    simp only [count_slotsAll_append]
    omega)
  refine ⟨l', r', freed, ⟨hl', hr', hre.perm ho' hperm.symm hperm'.symm, hself, rfl, ?_, fun y hy => ?_⟩,
    fun x hx => ?_⟩
  · rw [hlr]
    simpa using hspared'
  · exact (hreset.rest (ho'.grove.perm (middle_perm (cs ++ l₁) [p] r₁))).2 y (by simp [hy])
  · rw [hreset.blank_iff ho'.grove (by simpa using hblank) (c := x)]
    · simp
    · rw [hlr] at hx
      simp only [List.map_append, List.map_cons, List.mem_append, List.mem_cons] at hx ⊢
      tauto

end Beside

/-! ### Nodes that are made on first use -/

/-- Clearing the alternative that loses leaves all other alternatives as they are. -/
theorem clearLoser_reopened (ho : Opened e.tree parent id (l ++ cs ++ r))
    {before after : List (Option NodeId)} {existing : Option NodeId} {current : Option Nat}
    (hbody : (e.tree.node id).body = .choice (before ++ existing :: after) current)
    (hchosen : Chosen before existing after l cs r)
    (h : e.clearLoser (before ++ existing :: after) current before.length = e') :
    ∃ l' r' freed, e.Beside e' parent id l cs r l' r' freed ∧
      ∀ c ∈ (l ++ r).map Branch.root, e'.tree.Blank c ↔ e.tree.LeavesBlank id c := by
  have hswept : (e.tree.node id).body.swept =
      (Body.currentOf (before ++ existing :: after) current).toList := by rw [hbody]; rfl
  have hnothing : (∀ c ∈ (l ++ r).map Branch.root,
      Body.currentOf (before ++ existing :: after) current ≠ some c) →
      ∃ l' r' freed, e.Beside e parent id l cs r l' r' freed ∧
        ∀ c ∈ (l ++ r).map Branch.root, e.tree.Blank c ↔ e.tree.LeavesBlank id c := by
    refine fun hother => ⟨l, r, [], .refl ho, fun c hc => ?_⟩
    rw [LeavesBlank, hswept, if_neg (by simpa using hother c hc)]
  subst h
  unfold clearLoser
  split
  · exact hnothing (by simp [Body.currentOf])
  next previous =>
  split
  · next heq =>
    -- the chosen alternative is current already, and stands between the others
    refine hnothing fun c hc hcurrent => ?_
    have hx : existing = some c := by simpa [Body.currentOf, heq] using hcurrent
    have hmem : c ∈ idsAll cs := Grove.root_mem (by rw [← hchosen.middle, hx]; simp)
    exact (ho.grove.perm (middle_perm l cs r)).disjoint hmem (Grove.root_mem hc)
  next hne =>
  split
  next loser hloser =>
    have hcurrent : Body.currentOf (before ++ existing :: after) (some previous) = some loser := hloser
    obtain ⟨l', r', freed, hbeside, hblank⟩ :=
      Beside.of_reset ho (hchosen.mem_others hne (Option.join_eq_some_iff.1 hloser))
    refine ⟨l', r', freed, hbeside, fun c hc => ?_⟩
    rw [LeavesBlank, hswept, hcurrent, Option.toList_some]
    simp only [List.mem_singleton]
    exact hblank c hc
  · next hnone =>
    have hcurrent : Body.currentOf (before ++ existing :: after) (some previous) = none := hnone
    exact hnothing (by simp [hcurrent])

/-- The node that is there, or a new one. -/
theorem orAlloc_reopened (hg : e.tree.grammar.Valid) (hrank : e.tree.grammar.Ranked)
    (ho : Opened e.tree parent id (l ++ cs ++ r)) {existing : Option NodeId} {child : NodeId}
    {d : DefId} (hcs : existing.toList = cs.map Branch.root)
    (hd : ∀ c, existing = some c → (e.tree.node c).definition = d)
    (h : e.orAlloc existing id d = (child, e')) :
    ∃ u, u.root = child ∧
      Reopened e.tree e'.tree parent id (l ++ cs ++ r) (l ++ [u] ++ r) [] ∧
      e'.tree.node id = e.tree.node id ∧ e'.notices = e.notices ∧
      (e'.tree.node child).definition = d ∧
      (∀ y ∈ idsAll (l ++ r), e'.tree.node y = e.tree.node y) ∧
      (cs = [u] ∧ e' = e ∨
        cs = [] ∧ e'.tree.Bare [u] ∧ ∀ y ∈ u.ids, (e'.tree.node y).listeners = []) := by
  cases existing with
  | some c =>
      obtain ⟨rfl, rfl⟩ : c = child ∧ e = e' := by simpa [orAlloc] using h
      obtain ⟨u, rfl⟩ : ∃ u, cs = [u] := by
        have := congrArg List.length hcs
        exact List.length_eq_one_iff.1 (by simpa using this.symm)
      have hroot : u.root = c := by simpa using hcs.symm
      exact ⟨u, hroot, .refl ho, rfl, rfl, hd c rfl, fun _ _ => rfl, .inl ⟨rfl, rfl⟩⟩
  | none =>
      obtain rfl : cs = [] := by simpa using hcs.symm
      obtain ⟨u, hu, hbare⟩ := alloc_sprouted hg hrank (ho.grove.apart.mono (by simp)) id d
      obtain ⟨rfl, rfl⟩ : (Tree.alloc id d e.tree).1 = child ∧
          { e with tree := (Tree.alloc id d e.tree).2 } = e' := by simpa [orAlloc, alloc] using h
      obtain ⟨hre, hself⟩ := ho.step hu.regrown
      refine ⟨u, by simpa using hu.roots, hre, hself, rfl, by simpa using hu.definitions,
        (hu.regrown.rest (ho.grove.perm (middle_perm l [] r))).2, .inr ⟨rfl, hbare, fun y hy => ?_⟩⟩
      by_contra hheard
      have := (hu.regrown.rework.heard (by simpa using index_mem_slots hy) hheard).1
      simp at this

/-- One part follows the inner split, after others were cleared: the part that is there, or a new
one. -/
theorem assign_part {inner : Split} (hinner : Assigns g text inner) (hvalid : g.Valid)
    (hrank : g.Ranked) (hg : e.tree.grammar = g) (ho : Opened e.tree parent id (l ++ cs ++ r))
    (hparts : e.tree.Bare [.fork id (l ++ cs ++ r)] → l ++ cs ++ r = [])
    (hbeside : e.Beside e' parent id l cs r l' r' freed) {existing : Option NodeId} {child : NodeId} {d : DefId}
    (hcs : existing.toList = cs.map Branch.root)
    (hd : ∀ c, existing = some c → (e.tree.node c).definition = d)
    (halloc : e'.orAlloc existing id d = (child, e'')) (hfits : inner.Fits g text d) (body : Body)
    (he : e₀ = assign text inner child (e''.onTree fun t => t.setBody id body)) :
    ∃ u freed' ns, u.root = child ∧
      e.Works e₀ parent id (l ++ cs ++ r) (l' ++ [u] ++ r') [u] (freed ++ freed') ns ∧
      e₀.tree.node id = { e.tree.node id with body := body } ∧
      [u].map (fun b => (e₀.tree.node b.root).content) = [inner.content text].map some ∧
      (e₀.tree.node child).definition = d ∧ e₀.tree.Displays (inner.view g text d) child ∧
      (∀ c ∈ (l ++ r).map Branch.root, (e₀.tree.node c).definition = (e.tree.node c).definition) ∧
      ∀ y ∈ idsAll (l' ++ r'), e₀.tree.node y = e'.tree.node y := by
  obtain ⟨-, -, hre, hself, hnotices, hspared, hsame⟩ := hbeside
  have hg' : e'.tree.grammar = g := hre.rework.grammar.trans hg
  obtain ⟨u, rfl, hre', hself', hnotices', hdef, hnext, hnew⟩ := orAlloc_reopened (by rwa [hg'])
    (by rwa [hg']) hre.opened hcs (fun c hc => by
      rw [hsame c (Grove.root_mem (by rw [← hcs, hc]; simp))]
      exact hd c hc) halloc
  obtain ⟨e₃, he₃⟩ : ∃ e₃, e₃ = e''.onTree fun t => t.setBody id body := ⟨_, rfl⟩
  obtain ⟨hre₃, hself₃, hparts₃⟩ := hre'.opened.setBody body
  change Reopened e''.tree (e''.onTree fun t => t.setBody id body).tree _ _ _ _ _ at hre₃
  change (e''.onTree fun t => t.setBody id body).tree.node id = _ at hself₃
  change ∀ x ∈ _, (e''.onTree fun t => t.setBody id body).tree.node x = _ at hparts₃
  rw [← he₃] at hre₃ hself₃ hparts₃ he
  have hu : ∀ x ∈ idsAll [u], x ∈ idsAll (l' ++ [u] ++ r') := fun x hx => by simp_all
  have hdef₃ : (e₃.tree.node u.root).definition = d := by
    rw [hparts₃ _ (hu _ (by simpa using u.root_mem_ids))]
    exact hdef
  obtain ⟨u', freed', ns, hroot, hmakes, hdisplays⟩ := hinner e₃ (some id) u
    (hre₃.rework.grammar.trans (hre'.rework.grammar.trans hg')) hre₃.opened.grove.left.right
    (by rwa [hdef₃])
  rw [← he] at hmakes hdisplays
  rw [hdef₃] at hdisplays
  have hfreed' : freed' = [] ∨ cs = [u] := by
    rcases hnew with ⟨hcs, -⟩ | ⟨-, hbare, -⟩
    · exact .inr hcs
    · exact .inl (hmakes.bare (hbare.congr fun x hx => hparts₃ x (hu x hx)))
  have hall : Reopened e.tree e₃.tree parent id (l ++ cs ++ r) (l' ++ [u] ++ r') freed := by
    have := (hre.trans hre').trans hre₃
    rwa [List.append_nil, List.append_nil] at this
  have hold : ∀ x ∈ idsAll [u], (e₃.tree.node x).listeners ≠ [] →
      (e₃.tree.node x).content = (e.tree.node x).content := by
    intro x hx hheard
    rcases hnew with ⟨rfl, rfl⟩ | ⟨-, -, hunheard⟩
    · rw [hparts₃ x (hu x hx), hsame x hx]
    · rw [hparts₃ x (hu x hx)] at hheard
      exact absurd (hunheard x (by simpa using hx)) hheard
  have hle : ∀ i, (freed ++ freed').count i ≤ (slotsAll (l ++ cs ++ r)).count i := by
    intro i
    have := hspared.le i
    have := hmakes.spared.le i
    simp only [List.count_append, count_slotsAll_append] at *
    rcases hfreed' with rfl | rfl
    · simp only [List.count_nil]
      omega
    · omega
  have hbare : e.tree.Bare [.fork id (l ++ cs ++ r)] → freed ++ freed' = [] := by
    intro hbare
    have hnil := hparts hbare
    simp only [List.append_eq_nil_iff] at hnil
    obtain ⟨⟨rfl, rfl⟩, rfl⟩ := hnil
    rw [Spared.eq_nil hspared.le, hfreed'.resolve_right (by simp)]
    rfl
  have hdiscards : Discards e.tree e₀.tree (l ++ cs ++ r) ([u'].map Branch.root) := by
    rcases hnew with ⟨rfl, rfl⟩ | ⟨-, hbare, -⟩
    · -- the part was there, and nothing came in between
      refine (hmakes.discards.since ho.grove.left.right fun x hx => ?_).mono fun x hx => by simp_all
      rw [hparts₃ x (hu x hx), hsame x hx]
    · exact hmakes.discards.of_bare (hbare.congr fun x hx => hparts₃ x (hu x hx))
  obtain ⟨hworks, hself₀⟩ := Works.of_makes hall (by rw [hself₃, hself', hself])
    (by rw [he₃]; exact hnotices'.trans hnotices) hmakes hold hle hbare hdiscards
  refine ⟨u', freed', ns, hroot, hworks, by rw [hself₀, hself₃, hself', hself], hmakes.contents,
    ?_, hdisplays, fun c hc => ?_, fun y hy => ?_⟩
  · rw [← hdef₃]
    exact (hmakes.regrown.persists hre₃.opened.grove.left.right (by simpa using u.root_mem_ids)
      (hmakes.spared.root u (by simp))).1.definition
  · obtain ⟨hmem, hkept⟩ := hspared.of_mem hc
    have hmem' : c ∈ idsAll (l ++ cs ++ r) := by
      simp only [idsAll_append, List.mem_append] at hmem ⊢
      tauto
    refine (hworks.reopened.persists ho hmem' fun hi => ?_).definition
    -- the part that received the content lies next to all others
    rcases List.mem_append.1 hi with hi | hi
    · exact hkept hi
    · rcases hfreed' with rfl | rfl
      · simp at hi
      · have hslot := List.count_pos_iff.2 (hmakes.spared.mem_slotsAll hi)
        have hslot' := List.count_pos_iff.2 (index_mem_slotsAll hmem)
        have := ho.grove.apart c.index
        simp only [count_slotsAll_append] at *
        grind
  · rw [(hmakes.regrown.rest (hre₃.opened.grove.perm (middle_perm l' [u] r'))).2 y hy,
      hparts₃ y (by simp only [idsAll_append, List.mem_append] at hy ⊢; tauto), hnext y hy]

theorem assign_loop {span : Span} {items : List Split} (hitems : SpawnsEach g text items) :
    Assigns g text (.loop span items) := by
  rintro e parent ⟨id, ps⟩ hg hgrove hfits
  obtain ⟨hopened, howned, hsound⟩ := Opened.of_grove hgrove
  rw [root_fork, Split.Fits] at hfits
  obtain ⟨hrange, htiles, item, repetition, hrule, hadmits, heach⟩ := hfits
  have hshape : e.tree.shapeOf id = .loop item repetition := by
    rw [shapeOf, hg]
    exact hrule
  obtain ⟨old, hbody, -⟩ := (formed_loop_iff hshape).1 hsound.formed
  obtain rfl : old = ps.map Branch.root := by
    rw [hbody] at howned
    exact howned
  -- the old items are released, new ones are made, and then the node takes them
  obtain ⟨freed, hrelease, hcount⟩ := release_regrown hopened.grove
  obtain ⟨e₁, he₁⟩ : ∃ e₁, e₁ = e.onTree fun t => t.release (ps.map Branch.root) := ⟨_, rfl⟩
  replace hrelease : Regrown e.tree e₁.tree (some id) ps [] freed := he₁ ▸ hrelease
  obtain ⟨hre, hself⟩ := hopened.step_all hrelease
  have hshape₁ : e₁.tree.shapeOf id = .loop item repetition := by
    rw [← hshape, shapeOf, shapeOf, hself, hre.rework.grammar]
  rcases hspawn : spawnEach text items item id e₁ with ⟨ids, e₂⟩
  obtain ⟨us, ns, hroots, hmakes, hdefs, hdisplays⟩ := hitems e₁ e₂ id item ids
    (hre.rework.grammar.trans hg) (hre.opened.grove.apart.mono (by simp)) heach hspawn
  obtain ⟨hworks, hself'⟩ := Works.of_makes_all hre (by rw [hself]) (by rw [he₁]; rfl) hmakes (by simp)
    (by simpa using fun i => Nat.le_of_eq (hcount i)) (fun hbare => by
      have hnil := hbare.parts_nil howned (by simp [hbody])
      rw [hnil] at hcount
      rw [Spared.eq_nil fun i => Nat.le_of_eq (hcount i), List.append_nil])
    (hmakes.discards.of_bare (by simp [Bare]))
  rw [List.append_nil] at hworks
  obtain ⟨e₃, he₃⟩ : ∃ e₃, e₃ = e₂.onTree fun t => t.setBody id (.loop ids) := ⟨_, rfl⟩
  obtain ⟨hworks, hself₃, hparts⟩ := hworks.setBody (.loop ids)
  rw [← he₃] at hworks hself₃ hparts
  rw [hself', hself] at hself₃
  have hassign : assign text (.loop span items) id e =
      e₃.store id (slice text span.start span.stop) := by
    have hitem : itemDef e₁.tree id = item := by rw [itemDef, hshape₁]
    simp only [assign, hbody, ← he₁, hitem, hspawn, he₃]
  have hshape₃ : e₃.tree.shapeOf id = .loop item repetition := by
    rw [← hshape, shapeOf, shapeOf, hself₃, hworks.reopened.rework.grammar]
  have hcontents : us.map (fun b => (e₃.tree.node b.root).content) =
      (items.map (Split.content text)).map some := by
    rw [← hmakes.contents]
    refine List.map_congr_left fun b hb => ?_
    rw [hparts b.root (Grove.root_mem (List.mem_map_of_mem hb))]
  have hlength : ids.length = items.length := by
    simpa [← hroots] using length_roots hcontents
  have hformed : e₃.tree.Formed id := by
    refine (formed_loop_iff hshape₃).2 ⟨ids, by rw [hself₃], fun c hc => ?_⟩
    rw [hparts c (Grove.root_mem (hroots ▸ hc))]
    exact hdefs c hc
  have htext : slice text span.start span.stop = (items.map (Split.content text)).flatten :=
    (htiles.flatten hrange.left fun s hs => (Split.fitEach_iff.1 heach s hs).isRange).symm
  have hview : (Split.loop span items).view g text (e.tree.node id).definition =
      .node (e₃.tree.node id).definition (some (slice text span.start span.stop))
        (e₃.tree.node id).body.selection (Split.viewEach g text items item) := by
    rw [Split.view, hrule, hself₃, Body.selection, hlength]
    rfl
  have hdisplays₃ : e₃.tree.DisplayAll (Split.viewEach g text items item) ids :=
    hmakes.regrown.grove.displayAll_congr hparts (fun c hc => Grove.root_mem (hroots ▸ hc)) hdisplays
  have hcompact : e₃.tree.Compact id := by
    rw [← hroots] at hself₃
    refine ⟨fun c hc => ?_, by simp [hself₃, Body.absent]⟩
    rw [hself₃] at hc
    exact hmakes.regrown.grove.trim_congr hparts (Grove.root_mem hc) (trim_of_discards hmakes.discards hc)
  refine hworks.finish hopened hassign (by rw [hself₃, ← hroots]; rfl)
    (by rw [hself₃, ← hroots]; rfl) (fun _ => .rfl) hcontents htext hformed
    (by simp [hshape₃, Rule.isLeaf]) (by simp [Spare, hself₃, Body.kept]) hcompact (by simp [hself₃])
    (fun r hr => ?_) hview (by rwa [hself₃])
  rw [hshape₃] at hr
  obtain rfl : repetition = r := Option.some.inj hr
  rw [hself₃, Body.items, hlength]
  exact hadmits

theorem assign_separated {span : Span} {items separators : List Split}
    (hitems : SpawnsEach g text items) (hseparators : SpawnsEach g text separators) :
    Assigns g text (.separated span items separators) := by
  rintro e parent ⟨id, ps⟩ hg hgrove hfits
  obtain ⟨hopened, howned, hsound⟩ := Opened.of_grove hgrove
  rw [root_fork, Split.Fits] at hfits
  obtain ⟨hrange, htiles, item, separator, default, repetition, hrule, hadmits, hcounts, heach,
    heach'⟩ := hfits
  have hshape : e.tree.shapeOf id = .separated item separator default repetition := by
    rw [shapeOf, hg]
    exact hrule
  obtain ⟨oldItems, oldSeparators, hbody, -⟩ := (formed_separated_iff hshape).1 hsound.formed
  have hparts : oldItems ++ oldSeparators = ps.map Branch.root := by
    rw [hbody] at howned
    exact howned
  obtain ⟨is, ss, rfl, rfl, rfl⟩ := List.map_eq_append_iff.1 hparts.symm
  -- the old elements are released, new ones are made, and then the node takes them
  obtain ⟨freed, hrelease, hcount⟩ := release_release_regrown hopened.grove
  obtain ⟨e₁, he₁⟩ : ∃ e₁, e₁ = e.onTree fun t =>
      (t.release (is.map Branch.root)).release (ss.map Branch.root) := ⟨_, rfl⟩
  replace hrelease : Regrown e.tree e₁.tree (some id) (is ++ ss) [] freed := he₁ ▸ hrelease
  obtain ⟨hre, hself⟩ := hopened.step_all hrelease
  have hshape₁ : e₁.tree.shapeOf id = .separated item separator default repetition := by
    rw [← hshape, shapeOf, shapeOf, hself, hre.rework.grammar]
  rcases hspawn : spawnEach text items item id e₁ with ⟨ids, e₂⟩
  obtain ⟨us, ns, hroots, hmakes, hdefs, hdisplays⟩ := hitems e₁ e₂ id item ids
    (hre.rework.grammar.trans hg) (hre.opened.grove.apart.mono (by simp)) heach hspawn
  obtain ⟨hre₂, hself₂⟩ := hre.opened.step_all hmakes.regrown
  have hshape₂ : e₂.tree.shapeOf id = .separated item separator default repetition := by
    rw [← hshape₁, shapeOf, shapeOf, hself₂, hre₂.rework.grammar]
  rcases hspawn' : spawnEach text separators separator id e₂ with ⟨ids', e₃⟩
  obtain ⟨vs, ns', hroots', hmakes', hdefs', hdisplays'⟩ := hseparators e₂ e₃ id separator ids'
    (hre₂.rework.grammar.trans (hre.rework.grammar.trans hg))
    (hre₂.opened.grove.apart.mono (by simp)) heach' hspawn'
  have hempty : Grove e₁.tree (some id) ([] ++ []) := .nil (hre.opened.grove.apart.mono (by simp))
  have hall := hmakes.append hempty hmakes'
  have hsame := (hmakes.regrown.append hempty hmakes'.regrown).2
  obtain ⟨hworks, hself₃⟩ := Works.of_makes_all hre (by rw [hself]) (by rw [he₁]; rfl) hall (by simp)
    (by simpa using fun i => Nat.le_of_eq (hcount i)) (fun hbare => by
      have hnil := hbare.parts_nil howned (by simp [hbody])
      rw [hnil] at hcount
      rw [Spared.eq_nil fun i => Nat.le_of_eq (hcount i)]
      rfl) (hall.discards.of_bare (by simp [Bare]))
  rw [List.append_nil, List.append_nil] at hworks
  obtain ⟨e₄, he₄⟩ : ∃ e₄, e₄ = e₃.onTree fun t => t.setBody id (.separated ids ids') := ⟨_, rfl⟩
  obtain ⟨hworks, hself₄, hparts⟩ := hworks.setBody (.separated ids ids')
  rw [← he₄] at hworks hself₄ hparts
  rw [hself₃, hself] at hself₄
  have hassign : assign text (.separated span items separators) id e =
      e₄.store id (slice text span.start span.stop) := by
    have hitem : itemDef e₁.tree id = item := by rw [itemDef, hshape₁]
    have hseparator : separatorDef e₂.tree id = separator := by rw [separatorDef, hshape₂]
    simp only [assign, hbody, ← he₁, hitem, hspawn, hseparator, hspawn', he₄]
  have hshape₄ : e₄.tree.shapeOf id = .separated item separator default repetition := by
    rw [← hshape, shapeOf, shapeOf, hself₄, hworks.reopened.rework.grammar]
  have hcontents : (interleave us vs).map (fun b => (e₄.tree.node b.root).content) =
      ((interleave items separators).map (Split.content text)).map some := by
    have hfinal : (us ++ vs).map (fun b => (e₄.tree.node b.root).content) =
        (us ++ vs).map (fun b => (e₃.tree.node b.root).content) := by
      refine List.map_congr_left fun b hb => ?_
      rw [hparts b.root (Grove.root_mem (List.mem_map_of_mem hb))]
    rw [List.map_append, List.map_append] at hfinal
    obtain ⟨hus, hvs⟩ := List.append_inj hfinal (by simp)
    have hus' : us.map (fun b => (e₃.tree.node b.root).content) =
        (items.map (Split.content text)).map some := by
      rw [← hmakes.contents]
      refine List.map_congr_left fun b hb => ?_
      rw [hsame b.root (Grove.root_mem (List.mem_map_of_mem hb))]
    rw [map_interleave, map_interleave, map_interleave, hus, hvs, hus', hmakes'.contents]
  have hlength : ids.length = items.length := by
    simpa [← hroots] using length_roots hmakes.contents
  have hlength' : ids'.length = separators.length := by
    simpa [← hroots'] using length_roots hmakes'.contents
  have hactive : (e₄.tree.node id).body.active = (interleave us vs).map Branch.root := by
    rw [hself₄, Body.active, Body.interleave_eq (by omega), map_interleave, hroots, hroots']
  have hformed : e₄.tree.Formed id := by
    refine (formed_separated_iff hshape₄).2 ⟨ids, ids', by rw [hself₄], fun c hc => ?_,
      fun c hc => ?_, by omega⟩
    · have hmem : c ∈ idsAll us := Grove.root_mem (hroots ▸ hc)
      rw [hparts c (by simp [hmem]), hsame c hmem]
      exact hdefs c hc
    · have hmem : c ∈ idsAll vs := Grove.root_mem (hroots' ▸ hc)
      rw [hparts c (by simp [hmem])]
      exact hdefs' c hc
  have htext : slice text span.start span.stop =
      ((interleave items separators).map (Split.content text)).flatten := by
    refine (htiles.flatten hrange.left fun s hs => ?_).symm
    rcases mem_of_mem_interleave hs with hs | hs
    · exact (Split.fitEach_iff.1 heach s hs).isRange
    · exact (Split.fitEach_iff.1 heach' s hs).isRange
  have hview : (Split.separated span items separators).view g text (e.tree.node id).definition =
      .node (e₄.tree.node id).definition (some (slice text span.start span.stop))
        (e₄.tree.node id).body.selection (interleave (Split.viewEach g text items item)
          (Split.viewEach g text separators separator)) := by
    rw [Split.view, hrule, hself₄, Body.selection, hlength, hlength']
    rfl
  have hdisplays₄ : e₄.tree.DisplayAll (interleave (Split.viewEach g text items item)
      (Split.viewEach g text separators separator)) (e₄.tree.node id).body.active := by
    have hmem : ∀ c ∈ ids, c ∈ idsAll us := fun c hc => Grove.root_mem (hroots ▸ hc)
    have hmem' : ∀ c ∈ ids', c ∈ idsAll vs := fun c hc => Grove.root_mem (hroots' ▸ hc)
    rw [hself₄, Body.active, Body.interleave_eq (by omega)]
    refine .interleave (hmakes.regrown.grove.displayAll_congr (fun x hx => ?_) hmem hdisplays)
      (hmakes'.regrown.grove.displayAll_congr (fun x hx => ?_) hmem' hdisplays')
    · rw [hparts x (by simp [hx]), hsame x hx]
    · exact hparts x (by simp [hx])
  have hcompact : e₄.tree.Compact id := by
    rw [← hroots, ← hroots'] at hself₄
    refine ⟨fun c hc => ?_, by simp [hself₄, Body.absent]⟩
    rw [hself₄, Body.elements, ← List.map_append] at hc
    exact hall.regrown.grove.trim_congr hparts (Grove.root_mem hc) (trim_of_discards hall.discards hc)
  refine hworks.finish hopened hassign (by rw [hself₄, List.map_append, hroots, hroots']; rfl) hactive
    (fun c => by simp only [map_interleave, mem_interleave_iff, List.map_append, List.mem_append])
    hcontents htext hformed (by simp [hshape₄, Rule.isLeaf]) (by simp [Spare, hself₄, Body.kept]) hcompact
    (by simp [hself₄]) (fun r hr => ?_) hview hdisplays₄
  rw [hshape₄] at hr
  obtain rfl : repetition = r := Option.some.inj hr
  rw [hself₄, Body.items, hlength]
  exact hadmits

theorem assign_choice {span : Span} {index : Nat} {inner : Split} (hvalid : g.Valid)
    (hrank : g.Ranked) (hinner : Assigns g text inner) :
    Assigns g text (.choice span index inner) := by
  rintro e parent ⟨id, ps⟩ hg hgrove hfits
  obtain ⟨hopened, howned, hsound⟩ := Opened.of_grove hgrove
  rw [root_fork, Split.Fits] at hfits
  obtain ⟨hrange, hspan, defs, d, hrule, hd, hfit⟩ := hfits
  have hshape : e.tree.shapeOf id = .choice defs := by
    rw [shapeOf, hg]
    exact hrule
  obtain ⟨alternatives, current, hbody, hlength, hdefs, -⟩ :=
    (formed_choice_iff hshape).1 hsound.formed
  have hparts : alternatives.filterMap (fun c => c) = ps.map Branch.root := by
    rw [← howned, hbody]
    rfl
  obtain ⟨before, existing, after, l, cs, r, rfl, rfl, rfl, hchosen⟩ :=
    exists_chosen (by rw [hlength]; exact (List.getElem?_eq_some_iff.1 hd).1) hparts
  rcases hclear : e.clearLoser (before ++ existing :: after) current before.length with e₁
  obtain ⟨l', r', freed, hbeside, hblank⟩ := clearLoser_reopened hopened hbody hchosen hclear
  have hre := hbeside.reopened
  have hshape₁ : e₁.tree.shapeOf id = .choice defs := by
    rw [← hshape, shapeOf, shapeOf, hbeside.self, hre.rework.grammar]
  rcases halloc : e₁.orAlloc existing id d with ⟨child, e₂⟩
  rcases he₃ : assign text inner child (e₂.onTree fun t => t.setBody id
    (.choice (before ++ some child :: after) (some before.length))) with e₃
  obtain ⟨u, freed', ns, hroot, hworks, hself₃, hcontents, hdef, hdisplays, hothers, hnext⟩ :=
    assign_part hinner hvalid hrank hg hopened
      (fun hbare => hbare.parts_nil howned (by simp [hbody])) hbeside hchosen.middle (fun c hc => by
        have := hdefs before.length c (by simp [hc])
        rw [hd] at this
        exact (Option.some.inj this).symm) halloc hfit _ he₃.symm
  have hset : (before ++ existing :: after).set before.length (some child) =
      before ++ some child :: after := by simp
  have hassign : assign text (.choice span before.length inner) id e =
      e₃.store id (slice text span.start span.stop) := by
    have hindex : (before ++ existing :: after)[before.length]?.join = existing := by simp
    have hdef₁ : alternativeDef e₁.tree id before.length = d := by
      rw [alternativeDef, hshape₁]
      simp [List.getD_eq_getElem?_getD, hd]
    simp only [assign, hbody, hclear, hdef₁, hindex, halloc, hset, he₃]
  have hshape₃ : e₃.tree.shapeOf id = .choice defs := by
    rw [← hshape, shapeOf, shapeOf, hself₃, hworks.reopened.rework.grammar]
  have howned₃ : (e₃.tree.node id).body.owned = (l' ++ [u] ++ r').map Branch.root := by
    rw [hself₃, List.map_append, List.map_append, hbeside.left, hbeside.right, ← hchosen.left,
      ← hchosen.right]
    simp [Body.owned, hroot]
  have hcurrent : Body.currentOf (before ++ some child :: after) (some before.length) =
      some child := Body.currentOf_some (by simp)
  have hactive : (e₃.tree.node id).body.active = [u].map Branch.root := by
    rw [hself₃, Body.active, hcurrent, Option.toList_some, List.map_singleton, hroot]
  have hformed : e₃.tree.Formed id := by
    refine (formed_choice_iff hshape₃).2 ⟨_, _, by rw [hself₃], ?_, fun i c hc => ?_, ?_⟩
    · simpa using hlength
    · -- the chosen alternative has the chosen definition, and the others keep theirs
      by_cases hi : i = before.length
      · subst hi
        obtain rfl : child = c := by simpa using hc
        rw [hdef, hd]
      · have hget : (before ++ existing :: after)[i]? = some (some c) := by
          rwa [← hset, List.getElem?_set_ne (Ne.symm hi)] at hc
        rw [hothers c (hchosen.mem_others hi hget)]
        exact hdefs i c hget
    · intro _
      rw [hcurrent]
      rfl
  have htext : (Split.choice span before.length inner).content text =
      [inner.content text].flatten := by
    rw [List.flatten_singleton, Split.content, Split.content, hspan]
    rfl
  have hview : (Split.choice span before.length inner).view g text (e.tree.node id).definition =
      .node (e₃.tree.node id).definition (some (slice text span.start span.stop))
        (e₃.tree.node id).body.selection [inner.view g text d] := by
    rw [Split.view, hrule, hself₃, Rule.references, List.getD_eq_getElem?_getD, hd]
    rfl
  have hspare : ∀ c, e₃.tree.Spare id c →
      c ∈ (e.tree.node id).body.kept ∧ (e₃.tree.Blank c ↔ e.tree.LeavesBlank id c) := by
    rintro c ⟨hkept, hnot⟩
    rw [hself₃, Body.kept] at hkept
    rw [hactive, List.map_singleton, List.mem_singleton, hroot] at hnot
    have hc : c ∈ (l ++ r).map Branch.root := by
      rw [List.map_append, ← hchosen.left, ← hchosen.right]
      simpa [hnot, Ne.symm hnot] using hkept
    have hmem : c ∈ idsAll (l' ++ r') := Grove.root_mem (by
      rw [List.map_append, hbeside.left, hbeside.right, ← List.map_append]
      exact hc)
    refine ⟨?_, ?_⟩
    · rw [hbody]
      exact List.mem_filterMap.2 ⟨some c, hchosen.mem_alternatives hc, rfl⟩
    · rw [← hblank c hc]
      exact (hre.opened.grove.perm (middle_perm l' cs r')).right.blank_congr hnext hmem
  exact hworks.finish hopened hassign howned₃ hactive (fun _ => .rfl) hcontents htext hformed
    (by simp [hshape₃, Rule.isLeaf]) hspare (.of_body (congrArg Node.body hself₃) rfl rfl)
    (by simp [hself₃]) (by simp [hshape₃, Rule.repetition?])
    hview (by rw [hactive, List.map_singleton, hroot]; exact ⟨hdisplays, trivial⟩)

theorem assign_present {span : Span} {inner : Split} (hvalid : g.Valid) (hrank : g.Ranked)
    (hinner : Assigns g text inner) : Assigns g text (.present span inner) := by
  rintro e parent ⟨id, ps⟩ hg hgrove hfits
  obtain ⟨hopened, howned, hsound⟩ := Opened.of_grove hgrove
  rw [root_fork, Split.Fits] at hfits
  obtain ⟨hrange, -, hspan, item, quantifier, hrule, hfit⟩ := hfits
  have hshape : e.tree.shapeOf id = .optional item quantifier := by
    rw [shapeOf, hg]
    exact hrule
  obtain ⟨existing, present, hbody, hdef, -⟩ := (formed_optional_iff hshape).1 hsound.formed
  have hparts : existing.toList = ps.map Branch.root := by
    rw [hbody] at howned
    exact howned
  rcases halloc : e.orAlloc existing id item with ⟨child, e₁⟩
  rcases he₂ : assign text inner child (e₁.onTree fun t => t.setBody id
    (.optional (some child) true)) with e₂
  have hps : ps = [] ++ ps ++ [] := by simp
  rw [hps] at hopened howned ⊢
  obtain ⟨u, freed', ns, hroot, hworks, hself, hcontents, hdef', hdisplays, -⟩ :=
    assign_part hinner hvalid hrank hg hopened
      (fun hbare => hbare.parts_nil howned (by simp [hbody])) (.refl hopened) hparts hdef halloc hfit _ he₂.symm
  have hassign : assign text (.present span inner) id e =
      e₂.store id (slice text span.start span.stop) := by
    have hitem : itemDef e.tree id = item := by rw [itemDef, hshape]
    simp only [assign, hbody, hitem, halloc, he₂]
  have hshape₂ : e₂.tree.shapeOf id = .optional item quantifier := by
    rw [← hshape, shapeOf, shapeOf, hself, hworks.reopened.rework.grammar]
  have hactive : (e₂.tree.node id).body.active = [u].map Branch.root := by
    rw [hself]
    simp [Body.active, hroot]
  have hformed : e₂.tree.Formed id := by
    refine (formed_optional_iff hshape₂).2 ⟨some child, true, by rw [hself], fun c hc => ?_,
      fun _ => rfl⟩
    obtain rfl : child = c := Option.some.inj hc
    exact hdef'
  have htext : (Split.present span inner).content text = [inner.content text].flatten := by
    rw [List.flatten_singleton, Split.content, Split.content, hspan]
    rfl
  have hview : (Split.present span inner).view g text (e.tree.node id).definition =
      .node (e₂.tree.node id).definition (some (slice text span.start span.stop))
        (e₂.tree.node id).body.selection [inner.view g text item] := by
    rw [Split.view, hrule, hself]
    rfl
  exact hworks.finish hopened hassign (by simp [hself, Body.owned, hroot]) hactive (fun _ => .rfl)
    hcontents htext hformed (by simp [hshape₂, Rule.isLeaf])
    (by simp [Spare, hself, Body.kept, Body.active]) (.of_body (congrArg Node.body hself) rfl rfl)
    (by simp [hself])
    (by simp [hshape₂, Rule.repetition?]) hview
    (by rw [hactive, List.map_singleton, hroot]; exact ⟨hdisplays, trivial⟩)

theorem assign_absent {span : Span} : Assigns g text (.absent span) := by
  rintro e parent ⟨id, ps⟩ hg hgrove hfits
  obtain ⟨hopened, howned, hsound⟩ := Opened.of_grove hgrove
  rw [root_fork, Split.Fits] at hfits
  obtain ⟨hrange, hempty, item, quantifier, hshape⟩ := hfits
  have hshape : e.tree.shapeOf id = .optional item quantifier := by
    rw [shapeOf, hg]
    exact hshape
  obtain ⟨existing, present, hbody, hdef, -⟩ := (formed_optional_iff hshape).1 hsound.formed
  have hparts : existing.toList = ps.map Branch.root := by
    rw [hbody] at howned
    exact howned
  -- the part is cleared if it is there
  obtain ⟨t', ht', ps', freed, hroots, hre, hself, hspared, hdrained, hblank⟩ : ∃ t',
      t' = existing.elim e.tree e.tree.reset ∧
      ∃ ps' freed, ps'.map Branch.root = ps.map Branch.root ∧
        Reopened e.tree t' parent id ps ps' freed ∧ t'.node id = e.tree.node id ∧
        Spared ps freed ∧ (∀ c, existing = some c → t'.Drained c) ∧
        ∀ c, existing = some c → (t'.Blank c ↔ e.tree.Clearable c) := by
    refine ⟨_, rfl, ?_⟩
    cases existing with
    | none => exact ⟨ps, [], rfl, .refl hopened, rfl, .nil ps, by simp, by simp⟩
    | some child =>
        obtain ⟨p, rfl, rfl⟩ : ∃ p, ps = [p] ∧ p.root = child := by
          obtain ⟨p, rfl⟩ := List.length_eq_one_iff.1 (by simpa using (congrArg List.length hparts).symm)
          exact ⟨p, rfl, by simpa using hparts.symm⟩
        obtain ⟨p', freed, hroot, hreset, hspared, -, hdrained, hblank⟩ := reset_regrown hopened.grove
        obtain ⟨hre, hself⟩ := hopened.step_all hreset
        refine ⟨[p'], freed, by simp [hroot], hre, hself, hspared, fun c hc => ?_, fun c hc => ?_⟩
        · obtain rfl := Option.some.inj hc
          exact hdrained
        · obtain rfl := Option.some.inj hc
          exact hblank
  have hworks : e.Works ⟨t', e.notices⟩ parent id ps ps' [] freed [] :=
    .of_reopened hre (by rw [hself]) rfl hspared.le fun hbare => by
      have hnil := hbare.parts_nil howned (by simp [hbody])
      rw [hnil] at hspared
      exact Spared.eq_nil hspared.le
  obtain ⟨e₁, he₁⟩ : ∃ e₁, e₁ = (⟨t', e.notices⟩ : Edit).onTree fun t =>
      t.setBody id (.optional existing false) := ⟨_, rfl⟩
  obtain ⟨hworks, hself₁, hparts₁⟩ := hworks.setBody (.optional existing false)
  rw [← he₁] at hworks hself₁ hparts₁
  rw [hself] at hself₁
  have hassign : assign text (.absent span) id e =
      e₁.store id (slice text span.start span.stop) := by
    simp only [assign, hbody, he₁, ht']
    cases existing <;> rfl
  have hshape₁ : e₁.tree.shapeOf id = .optional item quantifier := by
    rw [← hshape, shapeOf, shapeOf, hself₁, hworks.reopened.rework.grammar]
  have howned₁ : (e₁.tree.node id).body.owned = ps'.map Branch.root := by
    rw [hself₁, hroots, ← hparts]
    rfl
  have hformed : e₁.tree.Formed id := by
    refine (formed_optional_iff hshape₁).2 ⟨existing, false, by rw [hself₁], fun c hc => ?_,
      by simp⟩
    obtain ⟨hmem, hkept⟩ := hspared.of_mem (c := c) (by simp [← hparts, hc])
    rw [(hworks.reopened.persists hopened hmem hkept).definition]
    exact hdef c hc
  have htext : slice text span.start span.stop = [] := by
    have hslice := hrange.slice?
    rw [← hempty] at hslice ⊢
    exact slice?_self_eq hslice
  have hactive : (e₁.tree.node id).body.active = [].map Branch.root := by
    rw [hself₁]
    rfl
  have hcontents : [].map (fun b => (e₁.tree.node (Branch.root b)).content) =
      ([] : List Text).map some := rfl
  have hview : (Split.absent span).view g text (e.tree.node id).definition =
      .node (e₁.tree.node id).definition (some (slice text span.start span.stop))
        (e₁.tree.node id).body.selection [] := by
    rw [Split.view, hself₁]
    rfl
  have hspare : ∀ c, e₁.tree.Spare id c →
      c ∈ (e.tree.node id).body.kept ∧ (e₁.tree.Blank c ↔ e.tree.LeavesBlank id c) := by
    rintro c ⟨hkept, -⟩
    rw [hself₁] at hkept
    have hkept : c ∈ existing.toList := hkept
    have hmem : c ∈ idsAll ps' := Grove.root_mem (by rw [hroots, ← hparts]; exact hkept)
    refine ⟨by rw [hbody]; exact hkept, ?_⟩
    rw [LeavesBlank, hbody, Body.swept, if_pos hkept, ← hblank c (by simpa using hkept)]
    exact hre.opened.grove.blank_congr hparts₁ hmem
  have hcompact : e₁.tree.Compact id := by
    refine ⟨by simp [hself₁, Body.elements], fun c hc => ?_⟩
    rw [hself₁] at hc
    have hc : c ∈ existing.toList := hc
    have hmem : c ∈ idsAll ps' := Grove.root_mem (by rw [hroots, ← hparts]; exact hc)
    exact hre.opened.grove.drained_congr (fun x hx => congrArg Node.body (hparts₁ x hx)) hmem
      (hdrained c (by simpa using hc))
  exact hworks.finish hopened hassign howned₁ hactive (fun _ => .rfl) hcontents htext hformed
    (by simp [hshape₁, Rule.isLeaf]) hspare hcompact (by simp [hself₁]) (by simp [hshape₁, Rule.repetition?])
    hview (by rw [hactive]; trivial)

/-! ### All splits -/

theorem assignEach_nil : AssignsEach g text [] := by
  rintro e parent bs - hgrove hfits
  obtain rfl : bs = [] := by simpa [Split.FitAll] using hfits
  exact ⟨[], [], [], rfl, .nil hgrove.apart, trivial⟩

theorem assignEach_cons {part : Split} {parts : List Split} (hpart : Assigns g text part)
    (hparts : AssignsEach g text parts) : AssignsEach g text (part :: parts) := by
  rintro e parent bs hg hgrove hfits
  obtain ⟨d, ds, hds, hfit, hall⟩ := hfits
  obtain ⟨b, bs, rfl, rfl, rfl⟩ := List.map_eq_cons_iff.1 hds
  have hgrove : Grove e.tree parent ([b] ++ bs) := hgrove
  obtain ⟨b', freed, ns, hroot, hmakes, hdisplays⟩ := hpart e parent b hg hgrove.left hfit
  obtain ⟨hrest, hsame⟩ := hmakes.regrown.rest hgrove
  have hdefs : bs.map (fun c => ((assign text part b.root e).tree.node c.root).definition) =
      bs.map fun c => (e.tree.node c.root).definition := by
    refine List.map_congr_left fun c hc => ?_
    rw [hsame c.root (Grove.root_mem (List.mem_map_of_mem hc))]
  obtain ⟨bs', freed', ns', hroots, hmakes', hdisplays'⟩ := hparts _ parent bs
    (hmakes.regrown.rework.grammar.trans hg) hrest (by rwa [hdefs])
  rw [hdefs] at hdisplays'
  -- the nodes that come later leave the first one alone
  have hkept := (hmakes.regrown.append hgrove hmakes'.regrown).2
  refine ⟨b' :: bs', freed ++ freed', ns ++ ns', ?_, hmakes.append hgrove hmakes', ?_, hdisplays'⟩
  · rw [List.map_cons, List.map_cons, hroot, hroots]
  · exact hmakes.regrown.grove.displays_congr hkept (by simpa [← hroot] using b'.root_mem_ids) hdisplays

theorem spawnEach_nil : SpawnsEach g text [] := by
  rintro e e' parent d ids - hap - hspawn
  obtain ⟨rfl, rfl⟩ : [] = ids ∧ e = e' := by simpa [spawnEach] using hspawn
  exact ⟨[], [], rfl, .nil hap, by simp, trivial⟩

theorem spawnEach_cons {part : Split} {parts : List Split} (hvalid : g.Valid) (hrank : g.Ranked)
    (hpart : Assigns g text part) (hparts : SpawnsEach g text parts) :
    SpawnsEach g text (part :: parts) := by
  rintro e e' parent d ids hg hap ⟨hfit, heach⟩ hspawn
  obtain ⟨u, hu, hbare⟩ := alloc_sprouted (hg ▸ hvalid) (hg ▸ hrank) hap parent d
  rcases halloc : Tree.alloc parent d e.tree with ⟨id, t₁⟩
  rw [halloc] at hu hbare
  obtain rfl : u.root = id := by simpa using hu.roots
  have hdef : (t₁.node u.root).definition = d := by simpa using hu.definitions
  obtain ⟨u', freed, ns, hroot, hmakes, hdisplays⟩ := hpart ⟨t₁, e.notices⟩ (some parent) u
    (hu.regrown.rework.grammar.trans hg) hu.regrown.grove (by rwa [hdef])
  rw [hdef] at hdisplays
  have hkept := (hmakes.regrown.persists hu.regrown.grove (by simpa using u.root_mem_ids)
    (hmakes.spared.root u (by simp))).1.definition
  replace hmakes : e.Makes _ (some parent) [] [u'] [part.content text] [] ns :=
    Makes.sprout ⟨t₁, e.notices⟩ hu hbare rfl hmakes
  rcases hrest : spawnEach text parts d parent (assign text part u.root ⟨t₁, e.notices⟩)
    with ⟨ids', e₂⟩
  obtain ⟨us, ns', hroots, hmakes', hdefs, hdisplays'⟩ := hparts _ e₂ parent d ids'
    (hmakes.regrown.rework.grammar.trans hg) (hmakes.regrown.grove.apart.mono (by simp)) heach hrest
  obtain ⟨rfl, rfl⟩ : u.root :: ids' = ids ∧ e₂ = e' := by
    simpa [spawnEach, alloc, halloc, hrest] using hspawn
  have hempty : Grove e.tree (some parent) ([] ++ []) := .nil hap
  -- the nodes that come later leave the first one alone
  have hsame := (hmakes.regrown.append hempty hmakes'.regrown).2
  have hmem : u.root ∈ idsAll [u'] := by rw [← hroot]; simpa using u'.root_mem_ids
  refine ⟨u' :: us, ns ++ ns', ?_, hmakes.append hempty hmakes', fun c hc => ?_,
    hmakes.regrown.grove.displays_congr hsame hmem hdisplays, hdisplays'⟩
  · rw [List.map_cons, hroots, hroot]
  · rcases List.mem_cons.1 hc with rfl | hc
    · rw [hsame _ hmem, hkept, hdef]
    · exact hdefs c hc

mutual

/-- **A node follows a split.** -/
theorem assigns (hvalid : g.Valid) (hrank : g.Ranked) : ∀ split : Split, Assigns g text split
  | .leaf _ => assign_leaf
  | .sequence _ parts => assign_sequence (assignsEach hvalid hrank parts)
  | .choice _ _ inner => assign_choice hvalid hrank (assigns hvalid hrank inner)
  | .absent _ => assign_absent
  | .present _ inner => assign_present hvalid hrank (assigns hvalid hrank inner)
  | .loop _ items => assign_loop (spawnsEach hvalid hrank items)
  | .separated _ items separators =>
      assign_separated (spawnsEach hvalid hrank items) (spawnsEach hvalid hrank separators)

theorem assignsEach (hvalid : g.Valid) (hrank : g.Ranked) :
    ∀ parts : List Split, AssignsEach g text parts
  | [] => assignEach_nil
  | part :: parts => assignEach_cons (assigns hvalid hrank part) (assignsEach hvalid hrank parts)

theorem spawnsEach (hvalid : g.Valid) (hrank : g.Ranked) :
    ∀ parts : List Split, SpawnsEach g text parts
  | [] => spawnEach_nil
  | part :: parts =>
      spawnEach_cons hvalid hrank (assigns hvalid hrank part) (spawnsEach hvalid hrank parts)

end

/-- A new node follows a split. -/
theorem spawn_makes {split : Split} {d : DefId} {p : NodeId} (hvalid : g.Valid) (hrank : g.Ranked)
    (hg : e.tree.grammar = g) (hap : e.tree.Apart []) (hfits : split.Fits g text d)
    (hspawn : spawn text split d p e = (id, e')) :
    ∃ u ns, u.root = id ∧ e.Makes e' (some p) [] [u] [split.content text] [] ns ∧
      (e'.tree.node id).definition = d := by
  have hone : spawnEach text [split] d p e = ([id], e') := by
    simp only [spawn, Prod.mk.injEq] at hspawn
    obtain ⟨rfl, rfl⟩ := hspawn
    rfl
  obtain ⟨us, ns, hroots, hmakes, hdefs, -⟩ :=
    spawnsEach hvalid hrank [split] e e' p d [id] hg hap ⟨hfits, trivial⟩ hone
  obtain ⟨u, rfl⟩ := List.length_eq_one_iff.1 (by simpa using congrArg List.length hroots)
  exact ⟨u, ns, by simpa using hroots, hmakes, hdefs id (by simp)⟩

end Edit

/-! ### Default contents -/

/-- The split that was found for a text is a derivation over the whole text. -/
theorem split_fits (hvalid : g.Valid) {d : DefId} {split : Split}
    (h : (resolve g d text).result = .ok split) :
    split.Fits g text d ∧ split.content text = text := by
  obtain ⟨prune, hrun⟩ := resolve_ok h
  obtain ⟨hspan, hfits⟩ := Query.run_fits (q := ⟨g, text, prune⟩) hvalid hrun
  refine ⟨hfits, ?_⟩
  rw [Split.content, hspan]
  exact slice_eq_of_slice? (slice?_whole text)

namespace Tree

/-- Giving a node its default content leaves it in order. -/
theorem fills_default (hvalid : g.Valid) (hrank : g.Ranked) : Fills g fillDefault := by
  rintro t parent b rfl hgrove
  have hnothing : ∃ b' freed, b'.root = b.root ∧ b.root.index ∉ freed ∧
      Regrown t t parent [b] [b'] freed := ⟨b, [], rfl, by simp, .refl hgrove⟩
  unfold fillDefault
  split
  · exact hnothing
  next text _ =>
  split
  next split hsplit =>
    obtain ⟨b', freed, ns, hroot, hmakes, -⟩ := Edit.assigns hvalid hrank split ⟨t, []⟩ parent b rfl
      hgrove (split_fits hvalid hsplit).1
    exact ⟨b', freed, hroot, hmakes.spared.root b (by simp), hmakes.regrown⟩
  · exact hnothing

/-- **A new node with its default content is in order.** -/
theorem allocFilled_sprouted (hvalid : t.grammar.Valid) (hrank : t.grammar.Ranked)
    (hap : t.Apart []) (d : DefId) (h : allocFilled parent d t = (id, t')) :
    ∃ b freed, Sprouted t t' parent [id] [d] [b] freed := by
  have := filled_sprouted hvalid hrank (fills_default hvalid hrank) hap parent d
  rw [allocFilled] at h
  rwa [h] at this

end Tree

end Tessera
