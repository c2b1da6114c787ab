/-
**Reports of assigned contents.**

When a branch follows a split, every node that contributes to the content of its root receives a
content, and each of them is reported once, after all nodes that contribute to its own content.  What
an edit does to some branches is collected in one statement together with its reports, so that edits
of neighbouring branches can be put one after the other.

Main definitions:

* `Tessera.Reported` — the reports of an edit are complete, in order and true;
* `Tessera.Discards` — what an edit leaves in the parts that are kept and not selected;
* `Tessera.Body.elements` — the parts that may be released;
* `Tessera.Tree.Compact` — the elements of a loop keep nothing for later use;
* `Tessera.Edit.Makes` — an edit of branches next to each other;
* `Tessera.Edit.Works` — an edit of the parts of an opened node.

Main results:

* `Tessera.Edit.Makes.append` — one edit after another;
* `Tessera.Edit.Works.store` — **a node that receives its content after its parts ends the report of
  its branch**.
-/

import Tessera.Proofs.Tree.Growth
import Tessera.Proofs.Tree.Leftovers

set_option autoImplicit false

namespace Tessera

open Branch Tessera.Tree

variable {t t' t'' : Tree} {parent : Option NodeId} {id m : NodeId} {b : Branch}
  {bs bs' cs cs' l r ps ps' done : List Branch} {freed freed' : List Nat} {ns ns' : List Notice}
  {texts texts' : List Text} {e e' e'' : Edit}

/-! ### What contributes to a content -/

namespace Tree

/-- What contributes to the content of a node is the node itself, and what contributes to the
contents of its active parts. -/
theorem activeBelow_iff : t.ActiveBelow id m ↔
    m = id ∨ ∃ c ∈ (t.node id).body.active, t.ActiveBelow c m := by
  rw [ActiveBelow, Relation.ReflTransGen.cases_head_iff, eq_comm]

theorem ActiveBelow.below (h : t.ActiveBelow id m) : t.Below id m := by
  induction h with
  | refl => exact .refl
  | tail _ hc ih => exact ih.tail (Body.owned_of_active hc)

end Tree

namespace Grove

/-- What contributes to the contents of a grove belongs to it. -/
theorem activeBelow_mem (h : Grove t parent bs) (hid : id ∈ idsAll bs) (hm : t.ActiveBelow id m) :
    m ∈ idsAll bs :=
  h.below_mem hid hm.below

/-- A change elsewhere does not change what contributes to the contents of a grove. -/
theorem activeBelow_congr (h : Grove t parent bs)
    (hsame : ∀ x ∈ idsAll bs, (t'.node x).body = (t.node x).body) (hid : id ∈ idsAll bs) :
    t'.ActiveBelow id m ↔ t.ActiveBelow id m := by
  constructor
  · intro hm
    induction hm with
    | refl => exact .refl
    | tail _ hc ih =>
        rw [hsame _ (h.activeBelow_mem hid ih)] at hc
        exact ih.tail hc
  · intro hm
    induction hm with
    | refl => exact .refl
    | tail hp hc ih =>
        rw [← hsame _ (h.activeBelow_mem hid hp)] at hc
        exact ih.tail hc

theorem disjoint (h : Grove t parent (bs ++ cs)) {x : NodeId} (hx : x ∈ idsAll bs) :
    x ∉ idsAll cs := by
  intro hx'
  have hnodup := h.apart.nodup
  rw [slotsAll_append] at hnodup
  exact List.disjoint_of_nodup_append hnodup (index_mem_slotsAll hx) (index_mem_slotsAll hx')

end Grove

/-! ### Reports -/

/-- The notices of an edit report exactly the nodes that contribute to the contents of `roots`
afterwards, each after those that contribute to its own content, with the contents before and
after. -/
structure Reported (t t' : Tree) (roots : List NodeId) (ns : List Notice) : Prop where
  mem_iff : ∀ m, m ∈ ns.map Notice.node ↔ ∃ root ∈ roots, t'.ActiveBelow root m
  ordered : ns.Pairwise fun n n' => ¬ t'.ActiveBelow n.node n'.node
  new : ∀ n ∈ ns, (t'.node n.node).content = some n.new
  listeners : ∀ n ∈ ns, n.listeners = (t'.node n.node).listeners
  /-- A new node has no listeners, and no content before. -/
  old : ∀ n ∈ ns, n.listeners ≠ [] → n.old = (t.node n.node).content

namespace Reported

theorem nil : Reported t t' [] [] :=
  ⟨by simp, .nil, by simp, by simp, by simp⟩

/-- The reported nodes belong to the branches at whose roots the reports end. -/
theorem mem_ids (h : Reported t t' (bs.map Branch.root) ns) (hg : Grove t' parent bs) {n : Notice}
    (hn : n ∈ ns) : n.node ∈ idsAll bs := by
  obtain ⟨root, hroot, hbelow⟩ := (h.mem_iff n.node).1 (List.mem_map_of_mem hn)
  exact hg.activeBelow_mem (Grove.root_mem hroot) hbelow

/-- Reports stay true when the reported branches stay as they are. -/
theorem frame (h : Reported t t' (bs.map Branch.root) ns) (hg : Grove t' parent bs)
    (hsame : ∀ x ∈ idsAll bs, t''.node x = t'.node x) :
    Reported t t'' (bs.map Branch.root) ns where
  mem_iff m := by
    rw [h.mem_iff]
    refine exists_congr fun root => and_congr_right fun hroot => ?_
    exact (hg.activeBelow_congr (fun x hx => by rw [hsame x hx]) (Grove.root_mem hroot)).symm
  ordered := by
    refine h.ordered.imp_of_mem fun {n n'} hn _ hnot hbelow => hnot ?_
    exact (hg.activeBelow_congr (fun x hx => by rw [hsame x hx]) (h.mem_ids hg hn)).1 hbelow
  new n hn := by
    rw [hsame _ (h.mem_ids hg hn)]
    exact h.new n hn
  listeners n hn := by
    rw [hsame _ (h.mem_ids hg hn)]
    exact h.listeners n hn
  old := h.old

/-- The contents before may be read off an earlier tree. -/
theorem since (h : Reported t' t'' (bs.map Branch.root) ns) (hg : Grove t'' parent bs)
    (hold : ∀ x ∈ idsAll bs, (t''.node x).listeners ≠ [] →
      (t'.node x).content = (t.node x).content) : Reported t t'' (bs.map Branch.root) ns where
  mem_iff := h.mem_iff
  ordered := h.ordered
  new := h.new
  listeners := h.listeners
  old n hn hheard := by
    rw [h.old n hn hheard]
    refine hold _ (h.mem_ids hg hn) ?_
    rwa [← h.listeners n hn]

/-- Reports about branches next to each other. -/
theorem append (h : Reported t t' (bs.map Branch.root) ns)
    (h' : Reported t t' (cs.map Branch.root) ns') (hg : Grove t' parent (bs ++ cs)) :
    Reported t t' ((bs ++ cs).map Branch.root) (ns ++ ns') where
  mem_iff m := by
    rw [List.map_append, List.mem_append, h.mem_iff, h'.mem_iff, List.map_append]
    simp only [List.mem_append, or_and_right, exists_or]
  ordered := by
    refine List.pairwise_append.2 ⟨h.ordered, h'.ordered, fun n hn n' hn' hbelow => ?_⟩
    exact hg.disjoint (hg.left.activeBelow_mem (h.mem_ids hg.left hn) hbelow)
      (h'.mem_ids hg.right hn')
  new n hn := (List.mem_append.1 hn).elim (h.new n) (h'.new n)
  listeners n hn := (List.mem_append.1 hn).elim (h.listeners n) (h'.listeners n)
  old n hn := (List.mem_append.1 hn).elim (h.old n) (h'.old n)

end Reported

/-! ### What is left in parts that are not selected -/

/-- Where a node contributes to the contents of `roots` after an edit, and keeps a part that does not:
the node was there before, among the branches `bs`, and kept that part, too.  The part is blank when
clearing it from there leaves nothing in it. -/
def Discards (t t' : Tree) (bs : List Branch) (roots : List NodeId) : Prop :=
  ∀ root ∈ roots, ∀ p c, t'.ActiveBelow root p → t'.Spare p c →
    p ∈ idsAll bs ∧ c ∈ (t.node p).body.kept ∧ (t'.Blank c ↔ t.LeavesBlank p c)

namespace Discards

variable {roots roots' : List NodeId}

theorem nil : Discards t t' bs [] := by
  simp [Discards]

/-- The same holds when the branches stay as they are afterwards. -/
theorem frame (h : Discards t t' bs (bs'.map Branch.root)) (hg : Grove t' parent bs')
    (hsame : ∀ x ∈ idsAll bs', t''.node x = t'.node x) :
    Discards t t'' bs (bs'.map Branch.root) := by
  intro root hroot p c hp hc
  have hrootmem := Grove.root_mem hroot
  rw [hg.activeBelow_congr (fun x hx => by rw [hsame x hx]) hrootmem] at hp
  have hpmem := hg.activeBelow_mem hrootmem hp
  rw [Spare, hsame p hpmem] at hc
  obtain ⟨hpbs, hkept, hblank⟩ := h root hroot p c hp hc
  rw [← hblank]
  exact ⟨hpbs, hkept, hg.blank_congr hsame (hg.owned_mem hpmem (Body.owned_of_kept hc.1)).1⟩

/-- What was there before may be read off an earlier tree. -/
theorem since (h : Discards t' t'' bs roots) (hg : Grove t parent bs)
    (hsame : ∀ x ∈ idsAll bs, t'.node x = t.node x) : Discards t t'' bs roots := by
  intro root hroot p c hp hc
  obtain ⟨hpbs, hkept, hblank⟩ := h root hroot p c hp hc
  rw [hsame p hpbs] at hkept
  exact ⟨hpbs, hkept, hblank.trans (hg.leavesBlank_congr hsame hpbs (Body.owned_of_kept hkept))⟩

theorem mono (h : Discards t t' bs roots) (hsub : ∀ x ∈ idsAll bs, x ∈ idsAll cs) :
    Discards t t' cs roots := fun root hroot p c hp hc =>
  have ⟨hpbs, hkept, hblank⟩ := h root hroot p c hp hc
  ⟨hsub p hpbs, hkept, hblank⟩

/-- Where there are no kept parts before, there are none that are not selected afterwards. -/
theorem of_bare (h : Discards t' t'' bs roots) (hbare : t'.Bare bs) : Discards t t'' cs roots := by
  intro root hroot p c hp hc
  obtain ⟨hpbs, hkept, -⟩ := h root hroot p c hp hc
  rcases hbare p hpbs with hnil | ⟨children, hbody⟩
  · exact absurd (Body.owned_of_kept hkept) (by simp [hnil])
  · simp [hbody, Body.kept] at hkept

theorem append (h : Discards t t' bs roots) (h' : Discards t t' cs roots') :
    Discards t t' (bs ++ cs) (roots ++ roots') := by
  intro root hroot
  rcases List.mem_append.1 hroot with hroot | hroot
  · exact h.mono (fun x hx => by simp [hx]) root hroot
  · exact h'.mono (fun x hx => by simp [hx]) root hroot

end Discards

/-! ### What is kept beside a content -/

namespace Body

/-- The items of a loop and the separators between them. -/
def elements : Body → List NodeId
  | loop items => items
  | separated items separators => items ++ separators
  | _ => []

/-- The child of an optional that is absent. -/
def absent : Body → List NodeId
  | optional child false => child.toList
  | _ => []

theorem owned_of_elements {body : Body} {x : NodeId} (h : x ∈ body.elements) : x ∈ body.owned := by
  cases body with
  | loop items => exact h
  | separated items separators => exact h
  | _ => cases h

theorem owned_of_absent {body : Body} {x : NodeId} (h : x ∈ body.absent) : x ∈ body.owned := by
  cases body with
  | optional child present =>
      cases present with
      | false => exact h
      | true => cases h
  | _ => cases h

end Body

namespace Tree

/-- Nothing that contributes to the content of the node keeps a part that does not. -/
def Trim (t : Tree) (id : NodeId) : Prop := ∀ x c, t.ActiveBelow id x → ¬ t.Spare x c

/-- The elements of a loop keep nothing for later use, and there is nothing that clearing an absent child
would release. -/
structure Compact (t : Tree) (id : NodeId) : Prop where
  elements : ∀ c ∈ (t.node id).body.elements, t.Trim c
  absent : ∀ c ∈ (t.node id).body.absent, t.Drained c

/-- All nodes that contribute to the contents of `roots` are compact. -/
def AllCompact (t : Tree) (roots : List NodeId) : Prop :=
  ∀ root ∈ roots, ∀ x, t.ActiveBelow root x → t.Compact x

/-- Where nothing was before, there is nothing left to be kept. -/
theorem trim_of_discards {roots : List NodeId} (h : Discards t t' [] roots) {c : NodeId} (hc : c ∈ roots) :
    t'.Trim c := by
  intro x p hx hp
  simpa using (h c hc x p hx hp).1

/-- A node without elements and without an absent child is compact. -/
theorem Compact.of_body {body : Body} (hbody : (t.node id).body = body) (helements : body.elements = [])
    (habsent : body.absent = []) : t.Compact id :=
  ⟨by simp [hbody, helements], by simp [hbody, habsent]⟩

end Tree

namespace Grove

/-- A change elsewhere leaves trim what is trim. -/
theorem trim_congr (h : Grove t parent bs) (hsame : ∀ x ∈ idsAll bs, t'.node x = t.node x)
    (hid : id ∈ idsAll bs) (htrim : t.Trim id) : t'.Trim id := by
  intro x c hx hc
  rw [h.activeBelow_congr (fun y hy => by rw [hsame y hy]) hid] at hx
  rw [Spare, hsame x (h.activeBelow_mem hid hx)] at hc
  exact htrim x c hx hc

/-- A change elsewhere leaves compact what is compact. -/
theorem compact_congr (h : Grove t parent bs) (hsame : ∀ x ∈ idsAll bs, t'.node x = t.node x)
    (hid : id ∈ idsAll bs) (hcompact : t.Compact id) : t'.Compact id where
  elements c hc := by
    rw [hsame id hid] at hc
    exact h.trim_congr hsame (h.owned_mem hid (Body.owned_of_elements hc)).1 (hcompact.elements c hc)
  absent c hc := by
    rw [hsame id hid] at hc
    exact h.drained_congr (fun x hx => congrArg Node.body (hsame x hx))
      (h.owned_mem hid (Body.owned_of_absent hc)).1 (hcompact.absent c hc)

end Grove

namespace Tree.AllCompact

variable {roots roots' : List NodeId}

theorem nil : t.AllCompact [] := by
  simp [AllCompact]

/-- The same holds when the branches stay as they are. -/
theorem frame (h : t.AllCompact (bs.map Branch.root)) (hg : Grove t parent bs)
    (hsame : ∀ x ∈ idsAll bs, t'.node x = t.node x) : t'.AllCompact (bs.map Branch.root) := by
  intro root hroot x hx
  have hmem := Grove.root_mem hroot
  rw [hg.activeBelow_congr (fun y hy => by rw [hsame y hy]) hmem] at hx
  exact hg.compact_congr hsame (hg.activeBelow_mem hmem hx) (h root hroot x hx)

theorem append (h : t.AllCompact roots) (h' : t.AllCompact roots') : t.AllCompact (roots ++ roots') :=
  fun root hroot => (List.mem_append.1 hroot).elim (h root) (h' root)

end Tree.AllCompact

namespace Edit

/-! ### Edits of branches -/

/-- An edit turned the branches `bs` into `bs'`, whose roots received the given texts. -/
structure Makes (e e' : Edit) (parent : Option NodeId) (bs bs' : List Branch) (texts : List Text)
    (freed : List Nat) (ns : List Notice) : Prop where
  regrown : Regrown e.tree e'.tree parent bs bs' freed
  contents : bs'.map (fun b => (e'.tree.node b.root).content) = texts.map some
  spared : Spared bs freed
  /-- Only elements of loops are released, so nothing is where no parts are. -/
  bare : e.tree.Bare bs → freed = []
  notices : e'.notices = ns.reverse ++ e.notices
  reported : Reported e.tree e'.tree (bs'.map Branch.root) ns
  discards : Discards e.tree e'.tree bs (bs'.map Branch.root)
  compact : e'.tree.AllCompact (bs'.map Branch.root)

namespace Makes

theorem nil (hap : e.tree.Apart []) : e.Makes e parent [] [] [] [] [] where
  regrown := .refl (.nil hap)
  contents := rfl
  spared := .nil []
  bare _ := rfl
  notices := rfl
  reported := .nil
  discards := .nil
  compact := .nil

/-- One edit after another. -/
theorem append (h : e.Makes e' parent bs bs' texts freed ns)
    (hg : Grove e.tree parent (bs ++ cs)) (h' : e'.Makes e'' parent cs cs' texts' freed' ns') :
    e.Makes e'' parent (bs ++ cs) (bs' ++ cs') (texts ++ texts') (freed ++ freed') (ns ++ ns') := by
  obtain ⟨hall, hsame⟩ := h.regrown.append hg h'.regrown
  obtain ⟨-, hbefore⟩ := h.regrown.rest hg
  have hcontent : bs'.map (fun b => (e''.tree.node b.root).content) = texts.map some := by
    rw [← h.contents]
    refine List.map_congr_left fun b hb => ?_
    rw [hsame b.root (Grove.root_mem (List.mem_map_of_mem hb))]
  refine ⟨hall, ?_, h.spared.append h'.spared hg.apart, fun hbare => ?_, ?_, ?_, ?_, ?_⟩
  · rw [List.map_append, List.map_append, hcontent, h'.contents]
  · have hleft : e.tree.Bare bs := fun x hx => hbare x (by simp [hx])
    have hright : e'.tree.Bare cs :=
      Bare.congr (fun x hx => hbare x (by simp [hx])) hbefore
    rw [h.bare hleft, h'.bare hright]
    rfl
  · rw [h'.notices, h.notices, List.reverse_append, List.append_assoc]
  · have hfirst := h.reported.frame h.regrown.grove hsame
    refine hfirst.append (h'.reported.since h'.regrown.grove fun x hx hheard => ?_) hall.grove
    -- a node with listeners was there before the second edit, and the first one left it alone
    obtain ⟨hold, -⟩ := h'.regrown.rework.heard (index_mem_slotsAll hx) hheard
    obtain ⟨y, hy, hxy⟩ := List.mem_map.1 hold
    have hslot : (e'.tree.slot y.index).content = (e.tree.slot y.index).content := by
      rw [← node_eq_slot, ← node_eq_slot, hbefore y hy]
    rw [node_eq_slot, node_eq_slot, ← hxy]
    exact hslot
  · rw [List.map_append]
    exact (h.discards.frame h.regrown.grove hsame).append (h'.discards.since hg.right hbefore)
  · rw [List.map_append]
    exact (h.compact.frame h.regrown.grove hsame).append h'.compact

/-- A new node that received a content. -/
theorem sprout (e' : Edit) {ids : List NodeId} {ds : List DefId}
    (hs : Sprouted e.tree e'.tree parent ids ds bs []) (hbare : e'.tree.Bare bs)
    (hnotices : e'.notices = e.notices) (h : e'.Makes e'' parent bs bs' texts freed ns) :
    e.Makes e'' parent [] bs' texts [] ns := by
  obtain rfl := h.bare hbare
  have hall := hs.regrown.trans h.regrown
  refine ⟨hall, h.contents, .nil [], fun _ => rfl, ?_, ?_, h.discards.of_bare hbare, h.compact⟩
  · rw [h.notices, hnotices]
  · refine h.reported.since h.regrown.grove fun x hx hheard => ?_
    have := (hall.rework.heard (index_mem_slotsAll hx) hheard).1
    simp at this

end Makes

/-! ### Edits of the parts of a node -/

/-- An edit of the parts of an opened node, of which `done` received contents. -/
structure Works (e e' : Edit) (parent : Option NodeId) (id : NodeId) (ps ps' done : List Branch)
    (freed : List Nat) (ns : List Notice) : Prop where
  reopened : Reopened e.tree e'.tree parent id ps ps' freed
  content : (e'.tree.node id).content = (e.tree.node id).content
  le : ∀ i, freed.count i ≤ (slotsAll ps).count i
  bare : e.tree.Bare [.fork id ps] → freed = []
  notices : e'.notices = ns.reverse ++ e.notices
  among : done.Sublist ps'
  reported : Reported e.tree e'.tree (done.map Branch.root) ns
  discards : Discards e.tree e'.tree ps (done.map Branch.root)
  compact : e'.tree.AllCompact (done.map Branch.root)

namespace Works

/-- The parts that received contents stand side by side. -/
theorem done_grove (h : e.Works e' parent id ps ps' done freed ns) :
    Grove e'.tree (some id) done :=
  h.reopened.opened.grove.mono (fun _ hb => h.among.subset hb) fun i => by
    have := h.among
    clear h
    induction this with
    | slnil => simp
    | cons b _ ih =>
        rw [slotsAll_cons, List.count_append]
        omega
    | cons_cons b _ ih =>
        rw [slotsAll_cons, slotsAll_cons, List.count_append, List.count_append]
        omega

/-- The node takes another list of parts. -/
theorem setBody (h : e.Works e' parent id ps ps' done freed ns) (body : Body) :
    e.Works (e'.onTree fun t => t.setBody id body) parent id ps ps' done freed ns ∧
      (e'.onTree fun t => t.setBody id body).tree.node id =
        { e'.tree.node id with body := body } ∧
      ∀ x ∈ idsAll ps', (e'.onTree fun t => t.setBody id body).tree.node x = e'.tree.node x := by
  obtain ⟨hbody, hself, hparts⟩ := h.reopened.opened.setBody body
  have hdone : ∀ x ∈ idsAll done,
      (e'.onTree fun t => t.setBody id body).tree.node x = e'.tree.node x := by
    intro x hx
    obtain ⟨b, hb, hx⟩ := mem_idsAll.1 hx
    exact hparts x (mem_idsAll.2 ⟨b, h.among.subset hb, hx⟩)
  refine ⟨⟨?_, ?_, h.le, h.bare, h.notices, h.among, h.reported.frame h.done_grove hdone,
    h.discards.frame h.done_grove hdone, h.compact.frame h.done_grove hdone⟩, hself, hparts⟩
  · have hall := h.reopened.trans hbody
    rwa [List.append_nil] at hall
  · rw [onTree, hself]
    exact h.content

/-- **A node that receives its content after its parts ends the report of its branch.**  What it keeps and
does not select was cleared before, if it was selected. -/
theorem store (h : e.Works e' parent id ps ps' done freed ns) (ho : Opened e.tree parent id ps)
    {w : Text} (howned : (e'.tree.node id).body.owned = ps'.map Branch.root)
    (hactive : ∀ c, c ∈ (e'.tree.node id).body.active ↔ c ∈ done.map Branch.root)
    (hspare : ∀ c, e'.tree.Spare id c →
      c ∈ (e.tree.node id).body.kept ∧ (e'.tree.Blank c ↔ e.tree.LeavesBlank id c))
    (hcompact : e'.tree.Compact id) (hsound : (e'.store id w).tree.Sound id) :
    ∃ ns', e.Makes (e'.store id w) parent [.fork id ps] [.fork id ps'] [w] freed ns' := by
  have ho' := h.reopened.opened
  obtain ⟨hstore, hself, hparts⟩ :=
    ho'.modify (f := fun n => { n with content := some w }) ⟨rfl, rfl, rfl⟩ rfl
  have hclosed := (h.reopened.trans hstore).close (by rw [hself]; exact howned) hsound
  rw [List.append_nil] at hclosed
  have hdone : ∀ x ∈ idsAll done, x ∈ idsAll ps' := by
    intro x hx
    obtain ⟨b, hb, hx⟩ := mem_idsAll.1 hx
    exact mem_idsAll.2 ⟨b, h.among.subset hb, hx⟩
  have hframe := h.reported.frame h.done_grove fun x hx => hparts x (hdone x hx)
  have hbody : (e'.store id w).tree.node id = { e'.tree.node id with content := some w } := hself
  have hbelow : ∀ m, (e'.store id w).tree.ActiveBelow id m ↔
      m = id ∨ ∃ root ∈ done.map Branch.root, (e'.store id w).tree.ActiveBelow root m := by
    intro m
    rw [activeBelow_iff, hbody]
    simp only [hactive]
  refine ⟨ns ++ [⟨id, (e'.tree.node id).content, w, (e'.tree.node id).listeners⟩],
    hclosed, ?_, Reopened.spared_fork ho h.le, h.bare, ?_, ⟨?_, ?_, ?_, ?_, ?_⟩, ?_, ?_⟩
  · simp [hbody]
  · simp [Edit.store, h.notices]
  · intro m
    simp only [List.map_append, List.map_cons, List.map_nil, List.mem_append, List.mem_singleton,
      root_fork, exists_eq_left, hbelow]
    rw [or_comm]
    exact or_congr_right (hframe.mem_iff m)
  · -- the node itself is not among its parts
    refine List.pairwise_append.2 ⟨hframe.ordered, List.pairwise_singleton _ _, ?_⟩
    intro n hn n' hn' hbelow
    obtain rfl := List.mem_singleton.1 hn'
    have hgrove : Grove (e'.store id w).tree (some id) ps' := hstore.opened.grove
    have hmem := hgrove.activeBelow_mem (hdone _ (h.reported.mem_ids h.done_grove hn)) hbelow
    exact ho'.ne_of_mem hmem rfl
  · intro n hn
    rcases List.mem_append.1 hn with hn | hn
    · exact hframe.new n hn
    · obtain rfl := List.mem_singleton.1 hn
      simp [hbody]
  · intro n hn
    rcases List.mem_append.1 hn with hn | hn
    · exact hframe.listeners n hn
    · obtain rfl := List.mem_singleton.1 hn
      simp [hbody]
  · intro n hn hheard
    rcases List.mem_append.1 hn with hn | hn
    · exact hframe.old n hn hheard
    · obtain rfl := List.mem_singleton.1 hn
      exact h.content
  · intro root hroot p c hp hc
    obtain rfl : root = id := by simpa using hroot
    rcases (hbelow p).1 hp with rfl | ⟨root', hroot', hp⟩
    · -- what the node itself keeps lies among its parts
      rw [Spare, hbody] at hc
      obtain ⟨hkept, hblank⟩ := hspare c hc
      have hmem : c ∈ ps'.map Branch.root := howned ▸ Body.owned_of_kept hc.1
      exact ⟨by simp, hkept, (ho'.grove.blank_congr hparts (Grove.root_mem hmem)).trans hblank⟩
    · have hframe := h.discards.frame h.done_grove fun x hx => hparts x (hdone x hx)
      obtain ⟨hmem, hkept, hblank⟩ := hframe root' hroot' p c hp hc
      exact ⟨by simp [hmem], hkept, hblank⟩
  · intro root hroot x hx
    obtain rfl : root = id := by simpa using hroot
    rcases (hbelow x).1 hx with rfl | ⟨root', hroot', hx⟩
    · refine ⟨fun c hc => ?_, fun c hc => ?_⟩
      · rw [hbody] at hc
        have hmem : c ∈ ps'.map Branch.root := howned ▸ Body.owned_of_elements hc
        exact ho'.grove.trim_congr hparts (Grove.root_mem hmem) (hcompact.elements c hc)
      · rw [hbody] at hc
        have hmem : c ∈ ps'.map Branch.root := howned ▸ Body.owned_of_absent hc
        exact ho'.grove.drained_congr (fun x hx => congrArg Node.body (hparts x hx))
          (Grove.root_mem hmem) (hcompact.absent c hc)
    · exact h.compact.frame h.done_grove (fun x hx => hparts x (hdone x hx)) root' hroot' x hx

end Works

end Edit

end Tessera
