/-
**Who is told about an edit.**

The listeners of a node are called when it receives a content, once in the course of an edit: those of
the nodes below the edited one first, children before their parents, then those of the node itself, and
then those of the ancestors that depend on it, from below.  Nobody else is called, and a call that
fails calls nobody.

Main definitions:

* `Tessera.Tree.callsAt` — the calls of the listeners of one node;
* `Tessera.Tree.Told` — who is told about an edit;
* `Tessera.Operation.tells` — whether an operation gives contents to nodes that are there.

Main results:

* `Tessera.Edited.calls_report` — the listeners below the edited node are called first;
* `Tessera.Garden.setContent_told` — **who is told about a new content**;
* `Tessera.Session.calls_run` — **who is told about the calls on a tree in use**.
-/

import Tessera.Proofs.Tree.Splicing

set_option autoImplicit false

namespace Tessera

open Branch Tessera.Tree

variable {t t₁ t' : Tree} {n p m x : NodeId} {ps : List NodeId} {roots roots' : List Branch}
  {c c' : Branch} {freed : List Nat} {g : Grammar} {text : Text} {notices ns : List Notice}

/-- The calls of the listeners of a node that received a content: each is told the content before, if
there was one, and the content after. -/
def Tree.callsAt (t t' : Tree) (m : NodeId) : List ListenerCall :=
  (t.node m).listeners.map fun l => ⟨l, m, (t.node m).content, (t'.node m).content.getD []⟩

/-- An edit of the node `n` calls the listeners of the nodes `below`, then those of `n`, and then those
of the ancestors of the climb, `ps`; all of them were there before and received contents, each of them
once. -/
structure Tree.Told (t t' : Tree) (n : NodeId) (below ps : List NodeId) (calls : List ListenerCall) :
    Prop where
  climb : t.Climb n ps
  calls : calls = (below ++ n :: ps).flatMap (t.callsAt t')
  nodup : (below ++ n :: ps).Nodup
  there : ∀ m ∈ below ++ n :: ps, t.lookup? m = some (t.node m)
  set : ∀ m ∈ below ++ n :: ps, (t'.node m).content.isSome

/-- Whether an operation gives contents to nodes that are there. -/
def Operation.tells : Operation → Bool
  | .setContent _ _ => true
  | .insert _ _ _ => true
  | .push _ _ => true
  | .remove _ _ => true
  | _ => false

/-- No listener is told twice about an edit. -/
theorem Tree.Told.once {below : List NodeId} {calls : List ListenerCall}
    (h : t.Told t' n below ps calls) (hattended : t.Attended) :
    (calls.map ListenerCall.listener).Nodup := by
  have hlisteners : ∀ m, (t.callsAt t' m).map ListenerCall.listener = (t.node m).listeners := by
    intro m
    simp [callsAt, Function.comp_def]
  simp only [h.calls, List.map_flatMap, hlisteners, List.nodup_flatMap]
  refine ⟨fun m _ => hattended.nodup m.index, ?_⟩
  refine h.nodup.imp_of_mem fun {m m'} hm hm' hne l hl hl' => ?_
  -- two nodes that were there are in two slots
  obtain ⟨-, hgeneration, -⟩ := lookup?_eq_some.1 (h.there m hm)
  obtain ⟨-, hgeneration', -⟩ := lookup?_eq_some.1 (h.there m' hm')
  exact hne (Branch.Stands.eq_of_index hgeneration hgeneration' (hattended.once _ _ l hl hl'))

/-! ### Reports as lists of nodes -/

/-- The notices of nodes that nobody listens to can be left out. -/
theorem Notice.flatMap_calls {calls : NodeId → List ListenerCall} {P : NodeId → Prop}
    [DecidablePred P]
    (h : ∀ notice ∈ ns, notice.calls = if P notice.node then calls notice.node else []) :
    ns.flatMap Notice.calls =
      ((ns.map Notice.node).filter fun m => decide (P m)).flatMap calls := by
  induction ns with
  | nil => rfl
  | cons notice ns ih =>
      have ih := ih fun notice' hmem => h notice' (List.mem_cons_of_mem _ hmem)
      rw [List.flatMap_cons, List.map_cons, ih, h notice List.mem_cons_self]
      by_cases hP : P notice.node
      · rw [if_pos hP, List.filter_cons_of_pos (by simpa using hP), List.flatMap_cons]
      · rw [if_neg hP, List.filter_cons_of_neg (by simpa using hP), List.nil_append]

/-- The report of a branch ends with its root, and holds no node twice. -/
theorem Reported.exists_last (h : Reported t t' [n] ns) :
    ∃ nodes, ns.map Notice.node = nodes ++ [n] ∧
      (nodes ++ [n]).Pairwise (fun m m' => ¬ t'.ActiveBelow m m') ∧
      ∀ m, m ∈ nodes ++ [n] ↔ t'.ActiveBelow n m := by
  have hordered : (ns.map Notice.node).Pairwise fun m m' => ¬ t'.ActiveBelow m m' :=
    List.pairwise_map.2 h.ordered
  have hmem : ∀ m, m ∈ ns.map Notice.node ↔ t'.ActiveBelow n m := fun m => by
    rw [h.mem_iff]
    simp
  obtain ⟨nodes, after, hnodes⟩ := List.append_of_mem ((hmem n).2 .refl)
  -- whatever were reported after the root would not be below it
  have hafter : after = [] := by
    rw [List.eq_nil_iff_forall_not_mem]
    intro m hm
    rw [hnodes, List.pairwise_append, List.pairwise_cons] at hordered
    exact hordered.2.1.1 m hm ((hmem m).1 (by simp [hnodes, hm]))
  subst hafter
  rw [hnodes] at hordered hmem
  exact ⟨nodes, hnodes, hordered, hmem⟩

/-! ### Ancestors -/

namespace Edited

variable (h : Edited t t₁ t' roots roots' c c' ps freed)
include h

/-- An ancestor is the same until its content is composed anew. -/
theorem node_climb (hp : p ∈ ps) : t₁.node p = t.node p := by
  obtain ⟨b, hb, hin⟩ := h.inside
  obtain ⟨hmem, hpc⟩ := h.climb_outside hp
  exact h.garden.node_outside hb hin (by simpa using h.regrown.rework) hmem hpc

/-- The listeners of the ancestors are called from below. -/
theorem calls_climb :
    (ps.map (Edit.recomposedNotice t₁ t')).flatMap Notice.calls = ps.flatMap (t.callsAt t') := by
  rw [List.flatMap_map]
  refine List.flatMap_congr fun p hp => ?_
  simp only [Notice.calls, Edit.recomposedNotice, callsAt, h.node_climb hp]

/-! ### The edited branch -/

/-- A node of the new branch that was live before kept its slot all the time. -/
theorem index_not_mem_freed (hx : x ∈ c'.ids) (hlive : t.Live x) : x.index ∉ freed := by
  intro hfreed
  obtain ⟨b, hb, hin⟩ := h.inside
  have hgrove := h.garden.grove_of_inside hb hin h.stands
  have hone : freed.count x.index = 1 := by
    have := h.spared.le x.index
    have := List.nodup_iff_count_le_one.1 hgrove.apart.nodup x.index
    have := List.count_pos_iff.2 hfreed
    omega
  -- a slot that was given back once has another generation
  have hgeneration := h.regrown.rework.generation x.index
  rw [hone, ← node_eq_slot, ← node_eq_slot, hlive.generation,
    h.regrown.grove.generation_of_mem (by simpa using hx)] at hgeneration
  simp at hgeneration

/-- A node of the new branch with listeners was live before. -/
theorem live_of_heard (hx : x ∈ c'.ids) (hheard : (t₁.node x).listeners ≠ []) : t.Live x := by
  have hslot : x.index ∈ slotsAll [c'] := index_mem_slotsAll (by simpa using hx)
  obtain ⟨-, hfreed, hfree, hsize⟩ := h.regrown.rework.heard hslot hheard
  refine ⟨hsize, hfree, ?_⟩
  have hgeneration := h.regrown.rework.generation x.index
  rw [List.count_eq_zero.2 hfreed, ← node_eq_slot, ← node_eq_slot,
    h.regrown.grove.generation_of_mem (by simpa using hx)] at hgeneration
  simpa using hgeneration.symm

/-- The listeners of a reported node are called when the node was there before; otherwise it has
none. -/
theorem calls_notice {notice : Notice} (hr : Reported t t₁ [c.root] ns) (hn : notice ∈ ns) :
    notice.calls = if t.Live notice.node then t.callsAt t' notice.node else [] := by
  have hroots : [c.root] = [c'].map Branch.root := by rw [List.map_singleton, h.root]
  have hmem : notice.node ∈ c'.ids := by
    have := (hroots ▸ hr).mem_ids h.regrown.grove hn
    simpa using this
  have hnew : ((t'.node notice.node).content) = some notice.new := by
    rw [h.node_inside hmem]
    exact hr.new notice hn
  have hlisteners := hr.listeners notice hn
  split
  · next hlive =>
      have hpersists := h.regrown.rework.persists _ hlive.size hlive.occupied
        (h.index_not_mem_freed hmem hlive)
      have hsame : notice.listeners = (t.node notice.node).listeners :=
        hlisteners.trans hpersists.listeners
      by_cases hheard : notice.listeners = []
      · rw [Notice.calls, callsAt, hheard, ← hsame, hheard]
        rfl
      · rw [Notice.calls, callsAt, hsame, hr.old notice hn hheard, hnew]
        rfl
  · next hlive =>
      have hnone : notice.listeners = [] := by
        by_contra hheard
        exact hlive (h.live_of_heard hmem (hlisteners ▸ hheard))
      rw [Notice.calls, hnone]
      rfl

/-- What contributes to the contents of the new branch does so since the edit of the branch. -/
theorem activeBelow_iff (hm : m ∈ c'.ids) : t'.ActiveBelow m x ↔ t₁.ActiveBelow m x :=
  h.regrown.grove.activeBelow_congr (fun y hy => by rw [h.node_inside (by simpa using hy)])
    (by simpa using hm)

/-- **The listeners below the edited node are called first**, children before their parents, and those
of the node itself are the last of them. -/
theorem calls_report (hr : Reported t t₁ [c.root] ns) :
    ∃ below, ns.flatMap Notice.calls = (below ++ [c.root]).flatMap (t.callsAt t') ∧
      (below ++ [c.root]).Pairwise (fun m m' => ¬ t'.ActiveBelow m m') ∧
      (∀ m ∈ below ++ [c.root], m ∈ c'.ids) ∧
      ∀ m, m ∈ below ↔ m ≠ c.root ∧ t.Live m ∧ t'.ActiveBelow c.root m := by
  obtain ⟨nodes, hnodes, hordered, hmem⟩ := hr.exists_last
  have hrootids : c.root ∈ idsAll [c'] := by simpa using h.root ▸ c'.root_mem_ids
  have hids : ∀ m ∈ nodes ++ [c.root], m ∈ idsAll [c'] := fun m hm =>
    h.regrown.grove.activeBelow_mem hrootids ((hmem m).1 hm)
  have hlive : t.Live c.root := h.garden.live_iff.2 h.root_mem
  have hsub : (nodes.filter fun m => decide (t.Live m)).Sublist nodes := List.filter_sublist
  have hsub' := hsub.append_right [c.root]
  refine ⟨nodes.filter fun m => decide (t.Live m), ?_, ?_, fun m hm => ?_, fun m => ?_⟩
  · rw [Notice.flatMap_calls fun notice hnotice => h.calls_notice hr hnotice, hnodes,
      List.filter_append, List.filter_cons_of_pos (by simpa using hlive), List.filter_nil]
  · refine (hordered.sublist hsub').imp_of_mem fun {m m'} hm _ hnot hbelow => hnot ?_
    exact (h.activeBelow_iff (by simpa using hids m (hsub'.subset hm))).1 hbelow
  · simpa using hids m (hsub'.subset hm)
  · rw [List.mem_filter, decide_eq_true_eq, h.activeBelow_iff (by simpa using hrootids), ← hmem, List.mem_append,
      List.mem_singleton]
    have hnot : c.root ∉ nodes := fun hmem' =>
      (List.pairwise_append.1 hordered).2.2 _ hmem' c.root (by simp) .refl
    constructor
    · rintro ⟨hm, hlive'⟩
      refine ⟨?_, hlive', .inl hm⟩
      rintro rfl
      exact hnot hm
    · rintro ⟨hne, hlive', hm | hm⟩
      · exact ⟨hm, hlive'⟩
      · exact absurd hm hne

/-- Who is told about an edit that was carried up. -/
theorem told {below : List NodeId} {calls : List ListenerCall} {new : Text}
    (hcalls : calls = (below ++ [c.root]).flatMap (t.callsAt t') ++ ps.flatMap (t.callsAt t'))
    (hnodup : (below ++ [c.root]).Nodup) (hids : ∀ m ∈ below, m ∈ c'.ids)
    (hlive : ∀ m ∈ below, t.Live m)
    (hactive : ∀ m ∈ below, t'.ActiveBelow c.root m)
    (hnew : (t'.node c.root).content = some new) : t.Told t' c.root below ps calls := by
  have hlist : below ++ c.root :: ps = (below ++ [c.root]) ++ ps := by simp
  have hset : (t'.node c.root).content.isSome := by rw [hnew]; rfl
  have hroot : c.root ∈ idsAll roots' := h.garden'.live_iff.1 h.live_root
  refine ⟨h.climb, by rw [hlist, List.flatMap_append, hcalls], ?_, fun m hm => ?_, fun m hm => ?_⟩
  · rw [hlist, List.nodup_append']
    refine ⟨hnodup, (List.nodup_cons.1 (h.garden.nodup_climb h.root_mem h.climb)).2, fun m hm hps => ?_⟩
    obtain ⟨hmem, hmc⟩ := h.climb_outside hps
    refine h.not_mem_of_outside hmem hmc ?_
    rcases List.mem_append.1 hm with hm | hm
    · exact hids m hm
    · rw [List.mem_singleton.1 hm, ← h.root]
      exact c'.root_mem_ids
  · rw [← get_eq_ok]
    rcases (List.mem_append.1 hm).imp_right List.mem_cons.1 with hm | rfl | hm
    · exact (hlive m hm).get_eq
    · exact (h.garden.live_iff.2 h.root_mem).get_eq
    · exact (h.garden.live_iff.2 (h.climb_outside hm).1).get_eq
  · rcases (List.mem_append.1 hm).imp_right List.mem_cons.1 with hm | rfl | hm
    · exact (h.garden'.isSome_of_activeBelow hroot hset (hactive m hm)).2
    · exact hset
    · exact h.set m hm

end Edited

/-! ### The calls -/

/-- **Who is told about a new content**: the listeners of the nodes that were there before and now
make up the new content, of the node itself, and of the ancestors. -/
theorem Garden.setContent_told {change : Change Unit} (h : Garden t roots)
    (hvalid : t.grammar.Valid) (hrank : t.grammar.Ranked)
    (hok : (t.setContent n text).result = .ok change) :
    ∃ below ps, t.Told change.tree n below ps change.calls ∧
      (∀ m, m ∈ below ↔ m ≠ n ∧ t.Live m ∧ change.tree.ActiveBelow n m) ∧
      (below ++ [n]).Pairwise fun m m' => ¬ change.tree.ActiveBelow m m' := by
  obtain ⟨split, hlookup, -⟩ := setContent_ok hok
  rcases h.live_or_vacant hlookup with hn | ⟨hfree, hvacant⟩
  · obtain ⟨t₁, roots', ps, ns, hrevised, hset, hreported, -⟩ := h.setContent hvalid hrank hn hok
    have hnew : (change.tree.node n).content = some text := by rw [hrevised.node_eq, hset]
    obtain ⟨c, c', freed, rfl, hedited⟩ := hrevised.edited
    obtain ⟨below, hcalls, hordered, hids, hbelow⟩ := hedited.calls_report hreported
    refine ⟨below, ps, hedited.told ?_ ?_ (fun m hm => hids m (by simp [hm]))
      (fun m hm => ((hbelow m).1 hm).2.1) (fun m hm => ((hbelow m).1 hm).2.2) hnew, hbelow, hordered⟩
    · rw [Change.calls, hrevised.report, List.flatMap_append, hcalls, hedited.calls_climb]
    · refine hordered.imp fun {m m'} hnot heq => hnot ?_
      rw [heq]
      exact .refl
  · -- at a free slot there is nobody else
    obtain ⟨hr, hcontent, hnotices⟩ := h.setContent_vacant hvalid hfree hok
    have hbody : (change.tree.node n).body = .leaf := (hr.stays n.index).body.trans hvacant.body
    have hactive : ∀ m, change.tree.ActiveBelow n m ↔ m = n := fun m => by
      rw [activeBelow_iff, hbody]
      simp [Body.active]
    refine ⟨[], [], ⟨.top fun p hp => ?_, ?_, by simp, ?_, ?_⟩, fun m => ?_, by simp⟩
    · rw [hvacant.parent] at hp
      cases hp
    · simp [Change.calls, hnotices, Notice.calls, callsAt, hcontent]
    · simpa using hlookup
    · simp [hcontent]
    · rw [hactive]
      simp only [List.not_mem_nil, false_iff, not_and]
      exact fun hne _ heq => hne heq

/-- Who is told about an edit of the parts of a node: new nodes have no listeners. -/
theorem Revised.told {new : Text} (h : Revised t t₁ t' roots roots' n ps notices
      (ns ++ [⟨n, (t.node n).content, new, (t.node n).listeners⟩]))
    (hunheard : ∀ m ∈ ns, m.listeners = []) (hnew : (t'.node n).content = some new) :
    t.Told t' n [] ps (notices.flatMap Notice.calls) := by
  obtain ⟨c, c', freed, rfl, hedited⟩ := h.edited
  refine hedited.told ?_ (by simp) (by simp) (by simp) (by simp) hnew
  have hsilent : ns.flatMap Notice.calls = [] := by
    rw [List.flatMap_eq_nil_iff]
    intro m hm
    rw [Notice.calls, hunheard m hm]
    rfl
  rw [h.report, List.flatMap_append, List.flatMap_append, hsilent, hedited.calls_climb]
  simp [Notice.calls, callsAt, hnew]

/-- Who is told about a new item: the listeners of the loop and of the ancestors. -/
theorem Garden.insert_told {change : Change NodeId} {index : Nat} (h : Garden t roots)
    (hvalid : t.grammar.Valid) (hrank : t.grammar.Ranked)
    (hok : t.insert n index text = .ok change) :
    ∃ ps, t.Told change.tree n [] ps change.calls := by
  obtain ⟨hn, t₁, roots', ps, ns, new, hrevised, hunheard, -, hnew, -⟩ := h.insert hvalid hrank hok
  exact ⟨ps, hrevised.told hunheard hnew⟩

/-- Who is told about an item that is taken out: the listeners of the loop and of the ancestors. -/
theorem Garden.remove_told {change : Change Unit} {index : Nat} (h : Garden t roots)
    (hok : t.remove n index = .ok change) :
    ∃ ps, t.Told change.tree n [] ps change.calls := by
  obtain ⟨hn, t₁, roots', ps, new, hrevised, -, hnew, -⟩ := h.remove hok
  rw [← List.nil_append [_]] at hrevised
  exact ⟨ps, hrevised.told (by simp) hnew⟩

/-- Who is told about a call that changes the items of a loop. -/
theorem Garden.perform_items_told {op : Operation} {change : Change Answer}
    (h : Garden t roots) (index : Nat) (text : Text) (hvalid : t.grammar.Valid) (hrank : t.grammar.Ranked)
    (hop : op = .insert n index text ∨ op = .push n text ∨ op = .remove n index)
    (hok : t.perform op = .ok change) : ∃ ps, t.Told change.tree n [] ps change.calls := by
  rcases hop with rfl | rfl | rfl
  · obtain ⟨c, hc, -, htree, hnotices⟩ := Change.map_ok hok
    rw [Change.calls, ← htree, ← hnotices]
    exact h.insert_told hvalid hrank hc
  · obtain ⟨c, hc, -, htree, hnotices⟩ := Change.map_ok hok
    obtain ⟨items, -, hc⟩ := push_ok hc
    rw [Change.calls, ← htree, ← hnotices]
    exact h.insert_told hvalid hrank hc
  · obtain ⟨c, hc, -, htree, hnotices⟩ := Change.map_ok hok
    rw [Change.calls, ← htree, ← hnotices]
    exact h.remove_told hc

/-- Who is told about a new content, as about any other call. -/
theorem Garden.perform_setContent_told {change : Change Answer} (h : Garden t roots)
    (hvalid : t.grammar.Valid) (hrank : t.grammar.Ranked)
    (hok : t.perform (.setContent n text) = .ok change) :
    ∃ below ps, t.Told change.tree n below ps change.calls ∧
      (∀ m, m ∈ below ↔ m ≠ n ∧ t.Live m ∧ change.tree.ActiveBelow n m) ∧
      (below ++ [n]).Pairwise fun m m' => ¬ change.tree.ActiveBelow m m' := by
  obtain ⟨c, hc, -, htree, hnotices⟩ := Change.map_ok hok
  rw [Change.calls, ← htree, ← hnotices]
  exact h.setContent_told hvalid hrank hc

/-- Every call that gives contents to nodes that are there is an edit of one of them. -/
theorem Garden.told_of_tells {op : Operation} {change : Change Answer} (h : Garden t roots)
    (hvalid : t.grammar.Valid) (hrank : t.grammar.Ranked) (htells : op.tells = true)
    (hok : t.perform op = .ok change) :
    ∃ n below ps, t.Told change.tree n below ps change.calls := by
  cases op with
  | setContent n text =>
      obtain ⟨below, ps, htold, -⟩ := h.perform_setContent_told hvalid hrank hok
      exact ⟨n, below, ps, htold⟩
  | insert n index text =>
      exact ⟨n, [], h.perform_items_told index text hvalid hrank (.inl rfl) hok⟩
  | push n text =>
      exact ⟨n, [], h.perform_items_told 0 text hvalid hrank (.inr (.inl rfl)) hok⟩
  | remove n index =>
      exact ⟨n, [], h.perform_items_told index [] hvalid hrank (.inr (.inr rfl)) hok⟩
  | _ => cases htells

/-- Nobody is told about a call that gives no contents to nodes that are there. -/
theorem Garden.calls_of_not_tells {op : Operation} {change : Change Answer} (h : Garden t roots)
    (hvalid : t.grammar.Valid) (hrank : t.grammar.Ranked) (htells : op.tells = false)
    (hok : t.perform op = .ok change) : change.calls = [] := by
  have hquiet : change.notices = [] := by
    cases op with
    | create d =>
        obtain ⟨c, hc, -, -, hnotices⟩ := Change.map_ok hok
        obtain ⟨-, -, -, -, hquiet⟩ := h.create hvalid hrank hc
        rw [← hnotices, hquiet]
    | alternative n index =>
        obtain ⟨c, hc, -, -, hnotices⟩ := Change.map_ok hok
        obtain ⟨-, -, hquiet⟩ := h.made hvalid hrank (.inl ⟨index, hc⟩)
        rw [← hnotices, hquiet]
    | alternativeOf n d =>
        obtain ⟨c, hc, -, -, hnotices⟩ := Change.map_ok hok
        obtain ⟨-, -, hquiet⟩ := h.made hvalid hrank (.inr (.inl ⟨d, hc⟩))
        rw [← hnotices, hquiet]
    | optionalChild n =>
        obtain ⟨c, hc, -, -, hnotices⟩ := Change.map_ok hok
        obtain ⟨-, -, hquiet⟩ := h.made hvalid hrank (.inr (.inr hc))
        rw [← hnotices, hquiet]
    | addListener n =>
        obtain ⟨c, hc, -, -, hnotices⟩ := Change.map_ok hok
        unfold Tree.addListener at hc
        obtain ⟨node, -, hc⟩ := Except.bind_eq_ok.1 hc
        rw [← hnotices, ← Except.ok.inj hc]
    | removeListener n l =>
        obtain ⟨c, hc, -, -, hnotices⟩ := Change.map_ok hok
        unfold Tree.removeListener at hc
        obtain ⟨node, -, hc⟩ := Except.bind_eq_ok.1 hc
        rw [← hnotices, ← Except.ok.inj hc]
    | _ => cases htells
  rw [Change.calls, hquiet]
  rfl

/-- **Who is told about the calls on a tree in use.**  A new content tells the listeners of the nodes
below the node that were there before and make up the new content, children before their parents, then
those of the node, and then those of the ancestors.  An item that is inserted or taken out tells those
of the loop and of the ancestors.  No other call tells anybody, and neither does one that fails.  No
listener is told twice. -/
theorem Session.calls_run {draft : Draft} (hbuild : draft.build = .ok g) {ops : List Operation}
    {s : Session} (hrun : Session.run g ops = s) :
    (∀ n text change, s.tree.perform (.setContent n text) = .ok change →
      ∃ below ps, s.tree.Told change.tree n below ps (s.calls (.setContent n text)) ∧
        (∀ m, m ∈ below ↔ m ≠ n ∧ s.tree.Live m ∧ change.tree.ActiveBelow n m) ∧
        (below ++ [n]).Pairwise fun m m' => ¬ change.tree.ActiveBelow m m') ∧
    (∀ n index text op change, op = .insert n index text ∨ op = .push n text ∨ op = .remove n index →
      s.tree.perform op = .ok change → ∃ ps, s.tree.Told change.tree n [] ps (s.calls op)) ∧
    (∀ op change, op.tells = false → s.tree.perform op = .ok change → s.calls op = []) ∧
    (∀ op err, s.tree.perform op = .error err → s.calls op = [] ∧ s.step op = s) ∧
    ∀ op, ((s.calls op).map ListenerCall.listener).Nodup := by
  have hvalid := Draft.build_valid hbuild
  have hrank := Draft.build_ranked hbuild
  obtain ⟨hgrammar, hattended, roots, hgarden, -⟩ := Session.tended_run hvalid hrank ops
  rw [hrun] at hgrammar hattended hgarden
  subst hgrammar
  have hcalls : ∀ op change, s.tree.perform op = .ok change → s.calls op = change.calls :=
    fun op change hok => by rw [Session.calls, hok]
  have hfail : ∀ op err, s.tree.perform op = .error err → s.calls op = [] ∧ s.step op = s :=
    fun op err herr => by
      rw [Session.calls, Session.step, herr]
      exact ⟨rfl, rfl⟩
  refine ⟨fun n text change hok => ?_, fun n index text op change hop hok => ?_,
    fun op change htells hok => ?_, hfail, fun op => ?_⟩
  · rw [hcalls _ _ hok]
    exact hgarden.perform_setContent_told hvalid hrank hok
  · rw [hcalls _ _ hok]
    exact hgarden.perform_items_told index text hvalid hrank hop hok
  · rw [hcalls _ _ hok]
    exact hgarden.calls_of_not_tells hvalid hrank htells hok
  · cases hok : s.tree.perform op with
    | error err => simp [(hfail op err hok).1]
    | ok change =>
        rw [hcalls op change hok]
        cases htells : op.tells with
        | false => simp [hgarden.calls_of_not_tells hvalid hrank htells hok]
        | true =>
            obtain ⟨n, below, ps, htold⟩ := hgarden.told_of_tells hvalid hrank htells hok
            exact htold.once hattended

/-- The root of a row is told that the first part of the row has a second letter. -/
theorem Session.calls_run_row :
    ∃ s change below ps, Session.run rowGrammar rowOperations = s ∧
      s.tree.perform (.setContent ⟨2, 0⟩ ['a', 'a']) = .ok change ∧
      s.tree.Told change.tree ⟨2, 0⟩ below ps (s.calls (.setContent ⟨2, 0⟩ ['a', 'a'])) ∧
      s.calls (.setContent ⟨2, 0⟩ ['a', 'a']) =
        [⟨0, ⟨0, 0⟩, some ['a', 'a'], ['a', 'a', 'a']⟩] := by
  generalize hs : Session.run rowGrammar rowOperations = s
  have htree : s.tree = rowTree := by rw [← hs, run_rowOperations]
  have hperform : s.tree.perform (.setContent ⟨2, 0⟩ ['a', 'a']) =
      .ok (rowLonger.map fun _ => .done) := by
    rw [htree, Tree.perform, setContent_row]
    rfl
  obtain ⟨below, ps, htold, -⟩ := (Session.calls_run rowDraft_build hs).1 _ _ _ hperform
  refine ⟨s, _, below, ps, rfl, hperform, htold, ?_⟩
  rw [Session.calls, hperform]
  rfl

end Tessera
