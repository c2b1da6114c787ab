/-
**What a tracer hears.**

Whoever traces a new content for a node first hears the search for a split of the text, and then, if the
search succeeds, of every node that receives a content.  The search is heard in order: frames are closed
as they were opened, innermost first, so an indentation that only counts begins and ends at nothing.  The
nodes are told once each, parts before the nodes that they contribute to: first those that make up the
new content, the edited node as the last of them, and then the ancestors whose contents are composed
anew.

Main definitions:

* `Tessera.Signal`, `Tessera.Tree.TracedChange.signals` — all that a tracer hears, in order;
* `Tessera.TraceStyle.signalLines` — the lines of a trace, written one signal after another;
* `Tessera.Tree.TracedChange.Bracketed` — the search is heard in order;
* `Tessera.Tree.Recounted` — the nodes that receive contents, in the order in which they are told.

Main results:

* `Tessera.traceLines_eq` — **a trace can be written while it is heard**;
* `Tessera.Planted.below_antisymm` — no node is below its own parts;
* `Tessera.Tree.setContent_bracketed` — the search is heard in order, however it ends;
* `Tessera.Garden.setContent_recounted` — the nodes that receive contents;
* `Tessera.Session.trace_run` — **what a tracer hears of a new content in a tree in use.**
-/

import Tessera.Proofs.Search.Frames
import Tessera.Proofs.Tree.Notification
import Tessera.Trace

set_option autoImplicit false

namespace Tessera

open Branch Tessera.Tree

variable {t t₁ t' : Tree} {g : Grammar} {n m m' p x y : NodeId} {ps : List NodeId}
  {roots roots' : List Branch} {c c' : Branch} {freed : List Nat} {ns : List Notice} {text : Text}

/-! ### Signals -/

/-- What a tracer hears. -/
inductive Signal
  /-- Something happened in the search. -/
  | search (event : Event)
  /-- A node received a content. -/
  | notify (notice : Notice)

/-- All that a tracer hears, in order: of the search, and then of the nodes that received contents. -/
def Tree.TracedChange.signals (c : TracedChange) : List Signal :=
  c.events.map .search ++
    match c.result with
    | .ok change => change.notices.map .notify
    | .error _ => []

/-- The indentation after a signal. -/
def Signal.depth : Nat → Signal → Nat
  | depth, .search event => event.depth depth
  | depth, .notify _ => depth

namespace TraceStyle

variable (s : TraceStyle) (g : Grammar) (source : Text)

/-- The line of a signal at a depth, if it has one. -/
def signalLine (depth : Nat) : Signal → List String
  | .search event => s.eventLines g source depth [event]
  | .notify notice => [s.noticeLine notice]

/-- The lines of a trace, written one signal after another. -/
def signalLines : Nat → List Signal → List String
  | _, [] => []
  | depth, signal :: signals =>
      s.signalLine g source depth signal ++ signalLines (signal.depth depth) signals

/-- What happens later is indented by how deep the search was nested then. -/
theorem eventLines_cons (depth : Nat) (event : Event) (events : List Event) :
    s.eventLines g source depth (event :: events) =
      s.eventLines g source depth [event] ++ s.eventLines g source (event.depth depth) events := by
  cases event with
  | enter d start stop =>
      simp only [eventLines, Event.depth]
      split <;> rfl
  | accept d start stop | reject d start stop => rfl
  | backtrack d offset =>
      simp only [eventLines, Event.depth]
      split <;> rfl

/-- The lines of the nodes that received contents do not depend on any depth. -/
theorem signalLines_notify (depth : Nat) (notices : List Notice) :
    s.signalLines g source depth (notices.map .notify) = notices.map s.noticeLine := by
  induction notices with
  | nil => rfl
  | cons notice notices ih => exact congrArg _ ih

/-- The lines of a search that was heard signal by signal. -/
theorem signalLines_search (depth : Nat) (events : List Event) (later : List Signal) :
    s.signalLines g source depth (events.map .search ++ later) =
      s.eventLines g source depth events ++
        s.signalLines g source (depthAfter depth events) later := by
  induction events generalizing depth with
  | nil => rfl
  | cons event events ih =>
      rw [eventLines_cons, List.append_assoc]
      exact congrArg _ (ih _)

end TraceStyle

/-- **A trace can be written while it is heard**, with nothing remembered but the depth. -/
theorem traceLines_eq (s : TraceStyle) (g : Grammar) (source : Text) (c : TracedChange) :
    traceLines s g source c = s.signalLines g source 0 c.signals := by
  rw [traceLines, TracedChange.signals, s.signalLines_search]
  cases c.result with
  | error err => rfl
  | ok change => exact congrArg _ (s.signalLines_notify g source _ _).symm

/-! ### The search -/

/-- The search for a split of a whole text is heard in order, as the frame `f`. -/
structure Tree.TracedChange.Bracketed (c : TracedChange) (f : Frame) : Prop where
  /-- Every frame is closed, innermost first. -/
  balanced : framesAfter [] c.events = some []
  /-- At each moment the indentation is the number of open frames. -/
  indented : ∀ earlier later, c.events = earlier ++ later →
    ∃ fs, framesAfter [] earlier = some fs ∧ depthAfter 0 earlier = fs.length
  /-- Whatever is written next begins without indentation. -/
  outdented : depthAfter 0 c.events = 0
  /-- The last event tells whether the operation succeeds. -/
  last : ∀ e, c.events.getLast? = some e → e = f.close c.result.isOk

/-- **The search is heard in order**, however it ends. -/
theorem Tree.setContent_bracketed (hg : t.grammar.Valid) (n : NodeId) (text : Text) :
    (t.setContent n text).Bracketed ⟨(t.node n).definition, 0, byteLength text⟩ := by
  -- enough that the frames are in order, and the last one tells how the operation ended
  suffices h : framesAfter [] (t.setContent n text).events = some [] ∧
      ∀ e, (t.setContent n text).events.getLast? = some e →
        e = (⟨(t.node n).definition, 0, byteLength text⟩ : Frame).close
          (t.setContent n text).result.isOk by
    refine ⟨h.1, fun earlier later hevents => ?_, depthAfter_eq_length h.1, h.2⟩
    have hbalanced := h.1
    rw [hevents, framesAfter_append] at hbalanced
    obtain ⟨fs, hfs, -⟩ := Option.bind_eq_some_iff.1 hbalanced
    exact ⟨fs, hfs, depthAfter_eq_length hfs⟩
  obtain ⟨hbalanced, hlast⟩ := resolve_frames hg (t.node n).definition text
  unfold Tree.setContent
  cases hget : t.get n with
  | error err => exact ⟨rfl, fun e he => nomatch he⟩
  | ok node =>
      obtain ⟨-, -, rfl⟩ := lookup?_eq_some.1 (get_eq_ok.1 hget)
      cases hresult : (resolve t.grammar (t.node n).definition text).result with
      | error err =>
          simp only [Outcome.split, hresult]
          exact ⟨hbalanced, fun e he => by rw [hlast e he, hresult]; rfl⟩
      | ok split =>
          simp only [Outcome.split, hresult]
          exact ⟨hbalanced, fun e he => by rw [hlast e he, hresult]; rfl⟩

/-! ### Above and below -/

namespace Planted

/-- No node is below its own parts. -/
theorem below_antisymm (h : Planted t roots) (hx : x ∈ idsAll roots) (hxy : t.Below x y)
    (hyx : t.Below y x) : x = y := by
  obtain ⟨b, c, hb, hin, rfl, hc⟩ := h.exists_branch hx
  obtain ⟨d, hd, rfl, hdstands⟩ := Branch.Inside.exists_of_mem hc (hc.below_iff.1 hxy)
  cases hd with
  | here => rfl
  | @part id parts q hq hd =>
      -- the root would hold its slot a second time
      have hmem : id ∈ idsAll parts :=
        mem_idsAll.2 ⟨q, hq, hd.subset (hdstands.below_iff.1 hyx)⟩
      have hnodup := h.nodup_of_inside hb hin
      rw [slots_fork, List.nodup_cons] at hnodup
      exact absurd (index_mem_slotsAll hmem) hnodup.1

/-- Among the nodes that contribute to one content, those below a node contribute to its content. -/
theorem activeBelow_of_below (h : Planted t roots) (hn : n ∈ idsAll roots) (hm : t.ActiveBelow n m)
    (hm' : t.ActiveBelow n m') (hbelow : t.Below m m') : t.ActiveBelow m m' := by
  induction hm' with
  | refl => exact h.below_antisymm hn hm.below hbelow ▸ .refl
  | @tail p q hp hq ih =>
      rcases Relation.ReflTransGen.cases_tail hbelow with rfl | ⟨p', hp', hq'⟩
      · exact .refl
      · -- a node has one parent
        have hmem : ∀ x, t.Below n x → x ∈ idsAll roots := fun x hx => by
          obtain ⟨b, c, hb, hin, rfl, hc⟩ := h.exists_branch hn
          exact mem_idsAll.2 ⟨b, hb, hin.subset (hc.below_iff.1 hx)⟩
        have hparent := (h.owned_mem (hmem p (ActiveBelow.below hp)) (Body.owned_of_active hq)).2
        have hparent' := (h.owned_mem (hmem p' (hm.below.trans hp')) hq').2
        obtain rfl := Option.some.inj (hparent.symm.trans hparent')
        exact (ih hp').tail hq

/-- The ancestors that a change reaches are reached from below. -/
theorem climb_ordered (h : Planted t roots) (hn : n ∈ idsAll roots) (hps : t.Climb n ps) :
    (n :: ps).Pairwise fun p q => ¬ t.Below p q := by
  have hnodup := h.nodup_climb hn hps
  induction hps with
  | top _ => simp
  | unset _ _ _ => simp
  | @step n p ps hp hactive hset hps ih =>
      obtain ⟨hnot, hnodup⟩ := List.nodup_cons.1 hnodup
      refine List.pairwise_cons.2 ⟨fun q hq hbelow => ?_, ih (h.owner hn hp).1 hnodup⟩
      have hup := (Climb.step hp hactive hset hps).activeBelow hq
      exact hnot (h.below_antisymm hn hbelow hup.below ▸ hq)

end Planted

/-! ### The nodes that receive contents -/

/-- A new content for the node `n` gave contents to the nodes `below`, then to `n`, and then to the
ancestors `ps`. -/
structure Tree.Recounted (t t' : Tree) (n : NodeId) (below ps : List NodeId) : Prop where
  /-- The nodes that make up the new content. -/
  mem_iff : ∀ m, m ∈ below ++ [n] ↔ t'.ActiveBelow n m
  /-- The ancestors that hold contents and depend on the node. -/
  climb : t.Climb n ps
  nodup : (below ++ n :: ps).Nodup
  /-- Each node comes before those that it is a part of. -/
  ordered : (below ++ n :: ps).Pairwise fun m m' => ¬ t'.Below m m'
  set : ∀ m ∈ below ++ n :: ps, (t'.node m).content.isSome

namespace Edited

variable (h : Edited t t₁ t' roots roots' c c' ps freed)
include h

/-- Afterwards the same ancestors depend on the node and hold contents. -/
theorem climb_after : t'.Climb c.root ps := by
  obtain ⟨b, hb, hin⟩ := h.inside
  refine h.climb.congr (fun x => x ∈ idsAll roots ∧ x ∉ c.ids) (fun x p hx hp => ?_) ?_
    (fun x hx => (h.retold_outside hx.1 hx.2).1) fun x hx => ?_
  · rcases hx with rfl | ⟨hx, hxc⟩
    · exact ⟨(h.garden.owner h.root_mem hp).1, h.garden.root_parent_outside hb hin h.stands hp⟩
    · exact ⟨(h.garden.owner hx hp).1, h.garden.parent_outside h.stands hx hxc hp⟩
  · have hparent := (h.regrown.grove.stands c' (by simp)).parent_eq
    rw [h.root] at hparent
    rw [h.node_inside (h.root ▸ c'.root_mem_ids), hparent]
  · by_cases hps : x ∈ ps
    · rw [h.set x hps, h.climb.isSome_of_mem hps]
    · rw [h.node_eq hx.1 hx.2 hps]

/-- The nodes that receive contents, in the order in which they are told. -/
theorem recounted {new : Text} (hr : Reported t t₁ [c.root] ns)
    (hnew : (t'.node c.root).content = some new) :
    ∃ below, ns.map Notice.node = below ++ [c.root] ∧ t.Recounted t' c.root below ps := by
  obtain ⟨below, hnodes, hordered, hmem⟩ := hr.exists_last
  have hroot : c.root ∈ idsAll roots' := h.garden'.live_iff.1 h.live_root
  have hactive : ∀ m, m ∈ below ++ [c.root] ↔ t'.ActiveBelow c.root m := fun m => by
    rw [hmem, h.activeBelow_iff (h.root ▸ c'.root_mem_ids)]
  have hids : ∀ m ∈ below ++ [c.root], m ∈ c'.ids := fun m hm => by
    have := h.regrown.grove.activeBelow_mem (by simpa using h.root ▸ c'.root_mem_ids) ((hmem m).1 hm)
    simpa using this
  have hlist : below ++ c.root :: ps = (below ++ [c.root]) ++ ps := by simp
  have hall : (below ++ c.root :: ps).Pairwise fun m m' => ¬ t'.Below m m' := by
    rw [hlist, List.pairwise_append]
    refine ⟨?_, ?_, fun m hm p hp hbelow => ?_⟩
    · refine hordered.imp_of_mem fun {m m'} hm hm' hnot hbelow => hnot ?_
      rw [← h.activeBelow_iff (hids m hm)]
      exact h.garden'.activeBelow_of_below hroot ((hactive m).1 hm) ((hactive m').1 hm') hbelow
    · exact (List.pairwise_cons.1 (h.garden'.climb_ordered hroot h.climb_after)).2
    · -- an ancestor outside of the branch would be inside of it
      obtain ⟨hpmem, hpc⟩ := h.climb_outside hp
      have hpm := (h.climb_after.activeBelow hp).below.trans ((hactive m).1 hm).below
      have hplive := (h.mem_iff p).2 (.inr ⟨hpmem, hpc⟩)
      exact h.not_mem_of_outside hpmem hpc (h.garden'.below_antisymm hplive hpm hbelow ▸ hids m hm)
  refine ⟨below, hnodes, hactive, h.climb, ?_, hall, fun m hm => ?_⟩
  · refine hall.imp fun {m m'} hnot heq => hnot ?_
    rw [heq]
    exact .refl
  rw [hlist] at hm
  rcases List.mem_append.1 hm with hm | hm
  · exact (h.garden'.isSome_of_activeBelow hroot (by rw [hnew]; rfl) ((hactive m).1 hm)).2
  · exact h.set m hm

end Edited

/-- **The nodes that receive contents**, each with the content that it holds afterwards. -/
theorem Garden.setContent_recounted {change : Change Unit} (h : Garden t roots)
    (hvalid : t.grammar.Valid) (hrank : t.grammar.Ranked)
    (hok : (t.setContent n text).result = .ok change) :
    ∃ below ps, t.Recounted change.tree n below ps ∧
      change.notices.map (fun notice => (notice.node, some notice.new)) =
        (below ++ n :: ps).map fun m => (m, (change.tree.node m).content) := by
  obtain ⟨split, hlookup, -⟩ := setContent_ok hok
  rcases h.live_or_vacant hlookup with hn | ⟨hfree, hvacant⟩
  · obtain ⟨t₁, roots', ps, ns, hrevised, hset, hreported, -⟩ := h.setContent hvalid hrank hn hok
    have hnew : (change.tree.node n).content = some text := by rw [hrevised.node_eq, hset]
    obtain ⟨c, c', freed, rfl, hedited⟩ := hrevised.edited
    obtain ⟨below, hnodes, hrecounted⟩ := hedited.recounted hreported hnew
    refine ⟨below, ps, hrecounted, ?_⟩
    have hlist : below ++ c.root :: ps = ns.map Notice.node ++ ps := by simp [hnodes]
    rw [hrevised.report, hlist, List.map_append, List.map_append, List.map_map, List.map_map]
    refine congrArg₂ _ (List.map_congr_left fun notice hnotice => ?_)
      (List.map_congr_left fun p hp => ?_)
    · have hroots : [c.root] = [c'].map Branch.root := by rw [List.map_singleton, hedited.root]
      have hmem := (hroots ▸ hreported).mem_ids hedited.regrown.grove hnotice
      rw [Function.comp, hedited.node_inside (by simpa using hmem), hreported.new notice hnotice]
    · obtain ⟨w, hw⟩ := Option.isSome_iff_exists.1 (hedited.set p hp)
      simp [Edit.recomposedNotice, hw]
  · -- at a free slot there is nobody else
    obtain ⟨hr, hcontent, hnotices⟩ := h.setContent_vacant hvalid hfree hok
    have hbody : (change.tree.node n).body = .leaf := (hr.stays n.index).body.trans hvacant.body
    have hactive : ∀ m, change.tree.ActiveBelow n m ↔ m = n := fun m => by
      rw [activeBelow_iff, hbody]
      simp [Body.active]
    refine ⟨[], [], ⟨fun m => by simp [hactive], .top fun p hp => ?_, by simp, by simp, ?_⟩, ?_⟩
    · rw [hvacant.parent] at hp
      cases hp
    · simp [hcontent]
    · simp [hnotices, hcontent]

/-- **What a tracer hears of a new content in a tree in use.**  It hears a search in order, as one frame
over the whole text, possibly twice; the last event tells whether the operation succeeds.  When it fails
that is all.  When it succeeds, the tracer then hears of the nodes that receive contents, each of them
once and with the content that it holds afterwards, parts before the nodes that they belong to.  The
lines of the trace are written as the signals are heard. -/
theorem Session.trace_run {draft : Draft} (hbuild : draft.build = .ok g) {ops : List Operation}
    {t : Tree} (hrun : (Session.run g ops).tree = t) (n : NodeId) (text : Text) :
    (t.setContent n text).Bracketed ⟨(t.node n).definition, 0, byteLength text⟩ ∧
      (∀ err, (t.setContent n text).result = .error err →
        (t.setContent n text).signals = (t.setContent n text).events.map .search) ∧
      (∀ change, (t.setContent n text).result = .ok change →
        (t.setContent n text).signals =
          (t.setContent n text).events.map .search ++ change.notices.map .notify ∧
        ∃ below ps, t.Recounted change.tree n below ps ∧
          change.notices.map (fun notice => (notice.node, some notice.new)) =
            (below ++ n :: ps).map fun m => (m, (change.tree.node m).content)) ∧
      ∀ s : TraceStyle, traceLines s g text (t.setContent n text) =
        s.signalLines g text 0 (t.setContent n text).signals := by
  have hvalid := Draft.build_valid hbuild
  have hrank := Draft.build_ranked hbuild
  obtain ⟨hgrammar, -, roots, hgarden, -⟩ := Session.tended_run hvalid hrank ops
  rw [hrun] at hgrammar hgarden
  subst hgrammar
  refine ⟨setContent_bracketed hvalid n text, fun err herr => ?_, fun change hok => ⟨?_, ?_⟩,
    fun s => traceLines_eq s _ text _⟩
  · rw [TracedChange.signals, herr, List.append_nil]
  · rw [TracedChange.signals, hok]
  · exact hgarden.setContent_recounted hvalid hrank hok

/-- When the first part of a row gets a second letter, its new parts are told first, then the part, and
then what is around it. -/
theorem Session.trace_run_row :
    ∃ t change below ps, (Session.run rowGrammar rowOperations).tree = t ∧
      (t.setContent ⟨2, 0⟩ ['a', 'a']).result = .ok change ∧
      (t.setContent ⟨2, 0⟩ ['a', 'a']).Bracketed ⟨(t.node ⟨2, 0⟩).definition, 0, 2⟩ ∧
      t.Recounted change.tree ⟨2, 0⟩ below ps ∧
      below ++ ⟨2, 0⟩ :: ps = [⟨8, 0⟩, ⟨6, 0⟩, ⟨7, 0⟩, ⟨5, 0⟩, ⟨2, 0⟩, ⟨1, 0⟩, ⟨0, 0⟩] := by
  generalize ht : (Session.run rowGrammar rowOperations).tree = t
  have hok : (t.setContent ⟨2, 0⟩ ['a', 'a']).result = .ok rowLonger := by
    rw [← ht, run_rowOperations, setContent_row]
  obtain ⟨hbracketed, -, hset, -⟩ := Session.trace_run rowDraft_build ht ⟨2, 0⟩ ['a', 'a']
  obtain ⟨-, below, ps, hrecounted, hnotices⟩ := hset _ hok
  refine ⟨t, _, below, ps, rfl, hok, hbracketed, hrecounted, ?_⟩
  have hnodes := congrArg (List.map Prod.fst) hnotices
  rw [List.map_map, List.map_map, Function.comp_def, Function.comp_def, List.map_id'] at hnodes
  rw [← hnodes]
  rfl

end Tessera
