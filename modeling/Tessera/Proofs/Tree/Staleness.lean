/-
**Stale handles.**

A handle goes stale when its node is released.  From then on every call that is given the handle
fails, changes nothing and tells nobody, and no call ever shows it, however often its slot is used
again: the slot has another generation each time.  That ends only when one slot was released `2 ^ 32`
times, since generations wrap around.

Main definitions:

* `Tessera.Operation.node?` — the handle that a call is given;
* `Tessera.Tree.Unknown` — no reading call finds a node behind a handle;
* `Tessera.Tree.Shows` — a reading call answers with a handle;
* `Tessera.Tree.Distinct` — all nodes have different handles;
* `Tessera.Session.Stale` — what is true of a stale handle.

Main results:

* `Tessera.Planted.live_of_shows` — a handle that a reading call answers with names a live node;
* `Tessera.Garden.answered` — **a call answers with a node that was there, or with a new one**;
* `Tessera.Session.stale_run` — **stale handles stay stale**.
-/

import Tessera.Proofs.Tree.Notification
import Tessera.Proofs.Tree.Ownership
import Tessera.Proofs.Tree.Releases
import Tessera.Tree.Outline

set_option autoImplicit false

namespace Tessera

open Branch Tessera.Tree

variable {t t' : Tree} {n x id : NodeId} {g : Grammar} {roots : List Branch} {s : Session}
  {d : DefId} {node : Node}

/-! ### Calls that are given a handle -/

/-- The handle that a call is given. -/
def Operation.node? : Operation → Option NodeId
  | .create _ => none
  | .setContent node _ => some node
  | .insert node _ _ => some node
  | .push node _ => some node
  | .remove node _ => some node
  | .alternative node _ => some node
  | .alternativeOf node _ => some node
  | .optionalChild node => some node
  | .addListener node => some node
  | .removeListener node _ => some node

/-- No reading call finds a node behind the handle. -/
structure Tree.Unknown (t : Tree) (id : NodeId) : Prop where
  content : t.content id = .error (.unknownNode id)
  isSet : t.isSet id = .error (.unknownNode id)
  definition : t.definition id = .error (.unknownNode id)
  regex : t.regex id = .error (.unknownNode id)
  shape : t.shape id = .error (.unknownNode id)
  parent : t.parent id = .error (.unknownNode id)
  isActive : t.isActive id = .error (.unknownNode id)
  children : t.children id = .error (.unknownNode id)
  len : t.len id = .error (.unknownNode id)
  child : ∀ index, t.child id index = .error (.unknownNode id)
  childOf : ∀ d, t.childOf id d = .error (.unknownNode id)
  field : ∀ name, t.field id name = .error (.unknownNode id)
  currentIndex : t.currentIndex id = .error (.unknownNode id)
  current : t.current id = .error (.unknownNode id)
  isPresent : t.isPresent id = .error (.unknownNode id)
  items : t.items id = .error (.unknownNode id)
  item : ∀ index, t.item id index = .error (.unknownNode id)
  separators : t.separators id = .error (.unknownNode id)
  separator : ∀ index, t.separator id index = .error (.unknownNode id)
  outline : t.outline id = .error (.unknownNode id)

namespace Tree

theorem get_eq_error (h : t.lookup? id = none) : t.get id = .error (.unknownNode id) := by
  rw [get, h]

/-- Every reading call looks its handle up first. -/
theorem unknown_of_lookup (h : t.lookup? id = none) : t.Unknown id := by
  have hget := get_eq_error h
  have hitems : t.items id = .error (.unknownNode id) := by rw [items, hget]; rfl
  have hseparators : t.separators id = .error (.unknownNode id) := by rw [separators, hget]; rfl
  have hchildren : t.sequenceChildren id = .error (.unknownNode id) := by
    rw [sequenceChildren, hget]
    rfl
  exact {
    content := by rw [content, hget]; rfl
    isSet := by rw [isSet, hget]; rfl
    definition := by rw [definition, hget]; rfl
    regex := by rw [regex, hget]; rfl
    shape := by rw [shape, hget]; rfl
    parent := by rw [parent, hget]; rfl
    isActive := by rw [isActive, hget]; rfl
    children := by rw [children, hget]; rfl
    len := by rw [len, hget]; rfl
    child := fun index => by rw [child, hchildren]; rfl
    childOf := fun d => by rw [childOf, hchildren]; rfl
    field := fun name => by rw [field, hchildren]; rfl
    currentIndex := by rw [currentIndex, hget]; rfl
    current := by rw [current, hget]; rfl
    isPresent := by rw [isPresent, hget]; rfl
    items := hitems
    item := fun index => by rw [item, hitems]; rfl
    separators := hseparators
    separator := fun index => by rw [separator, hseparators]; rfl
    outline := by rw [outline, hget]; rfl }

/-- Every call that may change a tree looks its handle up first, too. -/
theorem perform_of_lookup {op : Operation} (h : t.lookup? id = none) (hop : op.node? = some id) :
    t.perform op = .error (.unknownNode id) := by
  have hget := get_eq_error h
  have hitems := (unknown_of_lookup h).items
  have hrule : t.loopRule id = .error (.unknownNode id) := by rw [loopRule, hget]; rfl
  cases op with
  | create d => cases hop
  | setContent n text =>
      obtain rfl := Option.some.inj hop
      rw [perform, setContent, hget]
      rfl
  | insert n index text =>
      obtain rfl := Option.some.inj hop
      rw [perform, insert, hrule]
      rfl
  | push n text =>
      obtain rfl := Option.some.inj hop
      rw [perform, push, hitems]
      rfl
  | remove n index =>
      obtain rfl := Option.some.inj hop
      rw [perform, remove, hrule]
      rfl
  | alternative n index =>
      obtain rfl := Option.some.inj hop
      rw [perform, alternative, hget]
      rfl
  | alternativeOf n d =>
      obtain rfl := Option.some.inj hop
      rw [perform, alternativeOf, hget]
      rfl
  | optionalChild n =>
      obtain rfl := Option.some.inj hop
      rw [perform, optionalChild, hget]
      rfl
  | addListener n =>
      obtain rfl := Option.some.inj hop
      rw [perform, addListener, hget]
      rfl
  | removeListener n l =>
      obtain rfl := Option.some.inj hop
      rw [perform, removeListener, hget]
      rfl

/-! ### Handles that reading calls answer with -/

/-- A reading call answers with the handle. -/
inductive Shows (t : Tree) (x : NodeId) : Prop
  | parent (n : NodeId) (h : t.parent n = .ok (some x))
  | children (n : NodeId) (ids : List NodeId) (h : t.children n = .ok ids) (hx : x ∈ ids)
  | child (n : NodeId) (index : Nat) (h : t.child n index = .ok x)
  | childOf (n : NodeId) (d : DefId) (h : t.childOf n d = .ok x)
  | field (n : NodeId) (name : String) (h : t.field n name = .ok x)
  | current (n : NodeId) (h : t.current n = .ok (some x))
  | items (n : NodeId) (ids : List NodeId) (h : t.items n = .ok ids) (hx : x ∈ ids)
  | item (n : NodeId) (index : Nat) (h : t.item n index = .ok x)
  | separators (n : NodeId) (ids : List NodeId) (h : t.separators n = .ok ids) (hx : x ∈ ids)
  | separator (n : NodeId) (index : Nat) (h : t.separator n index = .ok x)

/-- The handle is among the parts of a node that can be looked up, or it is the parent of one. -/
def Kin (t : Tree) (x : NodeId) : Prop :=
  ∃ n, t.lookup? n = some (t.node n) ∧ (x ∈ (t.node n).body.owned ∨ (t.node n).parent = some x)

theorem mem_of_pick {parts : List NodeId} {index : Nat} (h : pick n parts index = .ok x) :
    x ∈ parts := by
  unfold pick at h
  split at h
  · next part hpart =>
      obtain rfl := Except.ok.inj h
      exact List.mem_of_getElem? hpart
  · cases h

theorem lookup?_of_live (h : t.Live x) : t.lookup? x = some (t.node x) :=
  lookup?_eq_some.2 ⟨h.size, h.generation, rfl⟩

/-- The node behind a handle that a call found. -/
theorem lookup?_of_get (h : t.get n = .ok node) :
    t.lookup? n = some (t.node n) ∧ node = t.node n := by
  have hlookup := get_eq_ok.1 h
  obtain ⟨-, -, rfl⟩ := lookup?_eq_some.1 hlookup
  exact ⟨hlookup, rfl⟩

theorem kin_of_sequenceChildren {ids : List NodeId} (h : t.sequenceChildren n = .ok ids)
    (hx : x ∈ ids) : t.Kin x := by
  obtain ⟨node, hget, h⟩ := Except.bind_eq_ok.1 h
  obtain ⟨hlookup, rfl⟩ := lookup?_of_get hget
  split at h
  · next children hbody =>
      obtain rfl := Except.ok.inj h
      exact ⟨n, hlookup, .inl (by rw [hbody]; exact hx)⟩
  · cases h

theorem kin_of_items {ids : List NodeId} (h : t.items n = .ok ids) (hx : x ∈ ids) : t.Kin x := by
  obtain ⟨hlookup, hbody | ⟨separators, hbody⟩⟩ := items_ok h
  · exact ⟨n, hlookup, .inl (by rw [hbody]; exact hx)⟩
  · exact ⟨n, hlookup, .inl (by rw [hbody]; exact List.mem_append_left _ hx)⟩

theorem kin_of_separators {ids : List NodeId} (h : t.separators n = .ok ids) (hx : x ∈ ids) :
    t.Kin x := by
  obtain ⟨node, hget, h⟩ := Except.bind_eq_ok.1 h
  obtain ⟨hlookup, rfl⟩ := lookup?_of_get hget
  split at h
  · next items separators hbody =>
      obtain rfl := Except.ok.inj h
      exact ⟨n, hlookup, .inl (by rw [hbody]; exact List.mem_append_right _ hx)⟩
  · cases h

/-- Reading calls answer with parts and parents only. -/
theorem Shows.kin (h : t.Shows x) : t.Kin x := by
  cases h with
  | parent n h =>
      obtain ⟨node, hget, h⟩ := Except.bind_eq_ok.1 h
      obtain ⟨hlookup, rfl⟩ := lookup?_of_get hget
      exact ⟨n, hlookup, .inr (Except.ok.inj h)⟩
  | children n ids h hx =>
      obtain ⟨node, hget, h⟩ := Except.bind_eq_ok.1 h
      obtain ⟨hlookup, rfl⟩ := lookup?_of_get hget
      obtain rfl := Except.ok.inj h
      exact ⟨n, hlookup, .inl (Body.owned_of_active hx)⟩
  | child n index h =>
      obtain ⟨ids, hids, h⟩ := Except.bind_eq_ok.1 h
      exact kin_of_sequenceChildren hids (mem_of_pick h)
  | childOf n d h =>
      obtain ⟨ids, hids, h⟩ := Except.bind_eq_ok.1 h
      split at h
      · next c hc =>
          obtain rfl := Except.ok.inj h
          exact kin_of_sequenceChildren hids (List.mem_of_find?_eq_some hc)
      · cases h
  | field n name h =>
      obtain ⟨ids, hids, h⟩ := Except.bind_eq_ok.1 h
      split at h
      · next c hc =>
          obtain rfl := Except.ok.inj h
          exact kin_of_sequenceChildren hids (List.mem_of_find?_eq_some hc)
      · cases h
  | current n h =>
      obtain ⟨node, hget, h⟩ := Except.bind_eq_ok.1 h
      obtain ⟨hlookup, rfl⟩ := lookup?_of_get hget
      split at h
      · next alternatives current hbody =>
          refine ⟨n, hlookup, .inl (Body.owned_of_active ?_)⟩
          rw [hbody, Body.active, Except.ok.inj h]
          exact List.mem_singleton_self x
      · cases h
  | items n ids h hx => exact kin_of_items h hx
  | item n index h =>
      obtain ⟨ids, hids, h⟩ := Except.bind_eq_ok.1 h
      exact kin_of_items hids (mem_of_pick h)
  | separators n ids h hx => exact kin_of_separators h hx
  | separator n index h =>
      obtain ⟨ids, hids, h⟩ := Except.bind_eq_ok.1 h
      exact kin_of_separators hids (mem_of_pick h)

end Tree

namespace Planted

/-- The parts and the parent of a node that can be looked up are live: nothing is left of them in a
free slot. -/
theorem live_of_kin (h : Planted t roots) (hx : t.Kin x) : t.Live x := by
  obtain ⟨n, hlookup, hkin⟩ := hx
  rcases h.live_or_vacant hlookup with hn | ⟨-, hvacant⟩
  · rcases hkin with howned | hparent
    · exact h.live_iff.2 (h.owned_mem hn howned).1
    · exact h.live_iff.2 (h.owner hn hparent).1
  · rcases hkin with howned | hparent
    · rw [hvacant.body] at howned
      cases howned
    · rw [hvacant.parent] at hparent
      cases hparent

/-- A handle that a reading call answers with names a live node. -/
theorem live_of_shows (h : Planted t roots) (hx : t.Shows x) : t.Live x := h.live_of_kin hx.kin

end Planted

/-! ### Handles that other calls answer with -/

namespace Tree

/-- A new node gets a handle that no live node has: its slot was free, or there was none. -/
theorem not_live_occupy (t : Tree) (n : Node) : ¬ t.Live (t.occupy n).1 := by
  intro hlive
  cases hfree : t.free with
  | nil =>
      have hid : (t.occupy n).1 = ⟨t.slots.size, 0⟩ := by simp [occupy, hfree]
      rw [hid] at hlive
      exact absurd hlive.size (Nat.lt_irrefl _)
  | cons i free =>
      have hid : (t.occupy n).1.index = i := by simp [occupy, hfree]
      refine hlive.occupied ?_
      rw [hid, hfree]
      exact List.mem_cons_self

theorem not_live_allocWith (fill : DefId → NodeId → Tree → Tree) (fuel : Nat)
    (parent : Option NodeId) (d : DefId) (t : Tree) :
    ¬ t.Live (allocWith fill fuel parent d t).1 := by
  have hid : (allocWith fill fuel parent d t).1 = (t.occupy (t.freshNode d parent)).1 := by
    cases fuel with
    | zero => rfl
    | succ fuel =>
        rw [allocWith]
        dsimp only
        split <;> rfl
  rw [hid]
  exact t.not_live_occupy _

/-- A new node with its default content has a handle that no live node had, and no slot goes
away. -/
theorem allocFilled_new {parent : Option NodeId} {created : NodeId}
    (h : t.allocFilled parent d = (created, t')) :
    ¬ t.Live created ∧ t.slots.size ≤ t'.slots.size := by
  have hnew := not_live_allocWith fillDefault t.allocFuel parent d t
  have hsize := (t.allocFilled_logged parent d).size_le
  rw [← allocFilled, h] at hnew
  rw [h] at hsize
  exact ⟨hnew, hsize⟩

theorem not_live_create {change : Change NodeId} (h : t.create d = .ok change) :
    ¬ t.Live change.value := by
  unfold create at h
  split at h
  · rw [← Except.ok.inj h]
    exact (allocFilled_new rfl).1
  · cases h

theorem not_live_insert {index : Nat} {text : Text} {change : Change NodeId}
    (h : t.insert n index text = .ok change) : ¬ t.Live change.value := by
  obtain ⟨rule, items, split, separator, -, -, -, -, -, -, item, e₁, s, e₂, hitem, -, rfl⟩ :=
    insert_ok h
  have hnew := not_live_allocWith (fun _ _ t => t) t.allocFuel (some n) rule.item t
  have hvalue : (Edit.spawn text split rule.item n ⟨t, []⟩).1 = item := by rw [hitem]
  rw [← hvalue]
  exact hnew

end Tree

namespace Garden

variable (h : Garden t roots) (hvalid : t.grammar.Valid) (hrank : t.grammar.Ranked)
include h hvalid hrank

theorem live_create {change : Change NodeId} (hok : t.create d = .ok change) :
    change.tree.Live change.value := by
  obtain ⟨⟨u, hu, hgarden⟩, -⟩ := h.create hvalid hrank hok
  rw [← hu]
  exact hgarden.live_iff.2 (by simp [u.root_mem_ids])

theorem live_insert {index : Nat} {text : Text} {change : Change NodeId}
    (hok : t.insert n index text = .ok change) : change.tree.Live change.value := by
  obtain ⟨-, t₁, roots', ps, ns, new, hrevised, -⟩ := h.insert hvalid hrank hok
  obtain ⟨items, -, hindex, hitems⟩ := (h.insert_spliced hvalid hrank hok).items
  exact hrevised.garden.1.live_of_shows
    (.items n _ hitems ((List.mem_insertIdx hindex).2 (.inl rfl)))

/-- A node that is made on first use is a part of the node that it was made for. -/
theorem live_of_adopted {body : Body} {t₂ : Tree} {change : Change NodeId}
    (hok : (∃ index, t.alternative n index = .ok change) ∨
      (∃ d, t.alternativeOf n d = .ok change) ∨ t.optionalChild n = .ok change)
    (hlookup : t.lookup? n = some (t.node n)) (hsize : t.slots.size ≤ t₂.slots.size)
    (htree : change.tree = t₂.setBody n body) (hx : change.value ∈ body.owned)
    (hbody : (t.node n).body ≠ .leaf) : change.tree.Live change.value := by
  have hn : t.Live n := by
    rcases h.live_or_vacant hlookup with hn | ⟨-, hvacant⟩
    · exact h.live_iff.2 hn
    · exact absurd hvacant.body hbody
  obtain ⟨⟨roots', hgarden, -⟩, hkept, -⟩ := h.made hvalid hrank hok
  have hnode : (change.tree.node n).body = body := by
    rw [htree, node_eq_slot, setBody, slot_modify_self (Nat.lt_of_lt_of_le hn.size hsize)]
  refine hgarden.live_iff.2 (hgarden.owned_mem (hgarden.live_iff.1 (hkept.live n hn)) ?_).1
  rw [hnode]
  exact hx

/-- **The node of an alternative** was there, and nothing changes, or it is new. -/
theorem answered_alternative {index : Nat} {change : Change NodeId}
    (hok : t.alternative n index = .ok change) :
    change.tree.Live change.value ∧ (change.tree = t ∨ ¬ t.Live change.value) := by
  obtain ⟨alternatives, current, hlookup, hbody, ⟨existing, hexisting, rfl⟩ |
    ⟨hnone, created, t₂, halloc, rfl⟩⟩ := alternative_ok hok
  · refine ⟨h.live_of_kin ⟨n, hlookup, .inl ?_⟩, .inl rfl⟩
    rw [hbody]
    exact List.mem_filterMap.2 ⟨_, List.mem_of_getElem? hexisting, rfl⟩
  · obtain ⟨hnew, hsize⟩ := allocFilled_new halloc
    obtain ⟨hindex, -⟩ := List.getElem?_eq_some_iff.1 hnone
    have hmem : created ∈ (Body.choice (alternatives.set index (some created)) current).owned :=
      List.mem_filterMap.2 ⟨_, List.mem_set hindex _, rfl⟩
    exact ⟨h.live_of_adopted hvalid hrank (.inl ⟨index, hok⟩) hlookup hsize rfl hmem
      (by simp [hbody]), .inr hnew⟩

/-- **The node of an optional part** was there, and nothing changes, or it is new. -/
theorem answered_optionalChild {change : Change NodeId} (hok : t.optionalChild n = .ok change) :
    change.tree.Live change.value ∧ (change.tree = t ∨ ¬ t.Live change.value) := by
  obtain ⟨present, hlookup, ⟨existing, hbody, rfl⟩ | ⟨hbody, created, t₂, halloc, rfl⟩⟩ :=
    optionalChild_ok hok
  · refine ⟨h.live_of_kin ⟨n, hlookup, .inl ?_⟩, .inl rfl⟩
    rw [hbody]
    exact List.mem_singleton_self existing
  · obtain ⟨hnew, hsize⟩ := allocFilled_new halloc
    exact ⟨h.live_of_adopted hvalid hrank (.inr (.inr hok)) hlookup hsize rfl
      (List.mem_singleton_self created) (by simp [hbody]), .inr hnew⟩

/-- **A call answers with a node that was there, and changes nothing, or with a new one**, whose
handle no live node had. -/
theorem answered {op : Operation} {change : Change Answer} (hok : t.perform op = .ok change)
    (hx : change.value = .node x) :
    change.tree.Live x ∧ (change.tree = t ∨ ¬ t.Live x) := by
  cases op with
  | create d =>
      obtain ⟨c, hc, hvalue, htree, -⟩ := Change.map_ok hok
      obtain rfl := Answer.node.inj (hvalue.trans hx)
      rw [← htree]
      exact ⟨h.live_create hvalid hrank hc, .inr (not_live_create hc)⟩
  | insert n index text =>
      obtain ⟨c, hc, hvalue, htree, -⟩ := Change.map_ok hok
      obtain rfl := Answer.node.inj (hvalue.trans hx)
      rw [← htree]
      exact ⟨h.live_insert hvalid hrank hc, .inr (not_live_insert hc)⟩
  | push n text =>
      obtain ⟨c, hc, hvalue, htree, -⟩ := Change.map_ok hok
      obtain ⟨items, -, hc⟩ := push_ok hc
      obtain rfl := Answer.node.inj (hvalue.trans hx)
      rw [← htree]
      exact ⟨h.live_insert hvalid hrank hc, .inr (not_live_insert hc)⟩
  | alternative n index =>
      obtain ⟨c, hc, hvalue, htree, -⟩ := Change.map_ok hok
      obtain rfl := Answer.node.inj (hvalue.trans hx)
      rw [← htree]
      exact h.answered_alternative hvalid hrank hc
  | alternativeOf n d =>
      obtain ⟨c, hc, hvalue, htree, -⟩ := Change.map_ok hok
      obtain ⟨-, index, -, -, hc⟩ := alternativeOf_eq_ok.1 hc
      obtain rfl := Answer.node.inj (hvalue.trans hx)
      rw [← htree]
      exact h.answered_alternative hvalid hrank hc
  | optionalChild n =>
      obtain ⟨c, hc, hvalue, htree, -⟩ := Change.map_ok hok
      obtain rfl := Answer.node.inj (hvalue.trans hx)
      rw [← htree]
      exact h.answered_optionalChild hvalid hrank hc
  | _ =>
      obtain ⟨c, -, hvalue, -⟩ := Change.map_ok hok
      cases hvalue.trans hx

/-- Listeners are told of nodes that can be looked up. -/
theorem lookup?_of_called {op : Operation} {change : Change Answer} {call : ListenerCall}
    (hok : t.perform op = .ok change) (hcall : call ∈ change.calls) :
    t.lookup? call.node = some (t.node call.node) := by
  cases htells : op.tells with
  | false =>
      rw [h.calls_of_not_tells hvalid hrank htells hok] at hcall
      cases hcall
  | true =>
      obtain ⟨n, below, ps, htold⟩ := h.told_of_tells hvalid hrank htells hok
      rw [htold.calls] at hcall
      obtain ⟨m, hm, hcall⟩ := List.mem_flatMap.1 hcall
      obtain ⟨l, -, rfl⟩ := List.mem_map.1 hcall
      exact htold.there m hm

/-- The nodes that receive contents with a new content can be looked up afterwards. -/
theorem lookup?_of_noticed {text : Text} {change : Change Unit} {notice : Notice}
    (hok : (t.setContent n text).result = .ok change) (hnotice : notice ∈ change.notices) :
    change.tree.lookup? notice.node = some (change.tree.node notice.node) := by
  obtain ⟨split, hlookup, -⟩ := setContent_ok hok
  rcases h.live_or_vacant hlookup with hn | ⟨hfree, -⟩
  · obtain ⟨t₁, roots', ps, ns, hrevised, -, hreported, -⟩ := h.setContent hvalid hrank hn hok
    obtain ⟨c, c', freed, rfl, hedited⟩ := hrevised.edited
    have hlive : change.tree.Live notice.node := by
      rw [hrevised.report] at hnotice
      rcases List.mem_append.1 hnotice with hnotice | hnotice
      · have hroots : [c.root] = [c'].map Branch.root := by rw [List.map_singleton, hedited.root]
        have hmem := (hroots ▸ hreported).mem_ids hedited.regrown.grove hnotice
        exact hedited.garden'.live_iff.2 ((hedited.mem_iff _).2 (.inl (by simpa using hmem)))
      · obtain ⟨p, hp, rfl⟩ := List.mem_map.1 hnotice
        obtain ⟨hmem, hout⟩ := hedited.climb_outside hp
        exact hedited.live_outside hmem hout
    exact lookup?_of_live hlive
  · -- at a free slot there is nobody else
    obtain ⟨hr, -, hnotices⟩ := h.setContent_vacant hvalid hfree hok
    obtain ⟨hsize, hgeneration, -⟩ := lookup?_eq_some.1 hlookup
    rw [hnotices, List.mem_singleton] at hnotice
    rw [hnotice]
    exact lookup?_eq_some.2 ⟨hr.size ▸ hsize, (hr.stays n.index).generation.trans hgeneration, rfl⟩

end Garden

/-! ### Different nodes -/

/-- All nodes of a tree have different handles: there are as many handles as there are nodes, and no
handle is given to two parts, or to a part and a created node. -/
structure Tree.Distinct (t : Tree) (created : List NodeId) : Prop where
  handles : ∃ ids : List NodeId, ids.Nodup ∧ (ids.map NodeId.index).Nodup ∧
    (∀ id, id ∈ ids ↔ t.Live id) ∧ t.nodeCount = ids.length
  parts : ∀ p, t.Live p → (t.node p).body.owned.Nodup
  owners : ∀ p q c, t.Live p → t.Live q → c ∈ (t.node p).body.owned → c ∈ (t.node q).body.owned →
    p = q
  created_nodup : created.Nodup
  created_free : ∀ r ∈ created, ∀ p, t.Live p → r ∉ (t.node p).body.owned

theorem Garden.distinct (h : Garden t roots) : t.Distinct (roots.map Branch.root) where
  handles := ⟨idsAll roots, h.nodup_ids, h.apart.nodup, fun _ => h.live_iff.symm, h.nodeCount_eq⟩
  parts := h.forest.owned_nodup
  owners := h.forest.owner_unique
  created_nodup := h.nodup_ids.sublist (Branch.roots_sublist roots)
  created_free r hr p hp hmem := by
    have hparent := (h.forest.owned p r hp hmem).2
    rw [(h.forest.created_live r hr).2] at hparent
    cases hparent

/-! ### Runs -/

namespace Session

theorem run_append (g : Grammar) (ops ops' : List Operation) :
    run g (ops ++ ops') = ops'.foldl step (run g ops) :=
  List.foldl_append

/-- Whatever is given a stale handle fails because the handle names no node, changes nothing and
tells nobody; no reading call shows the handle, and no listener is told about it. -/
structure Stale (s : Session) (id : NodeId) : Prop where
  reading : s.tree.Unknown id
  calling : ∀ op : Operation, op.node? = some id →
    s.tree.perform op = .error (.unknownNode id) ∧ s.step op = s ∧ s.calls op = []
  traced : ∀ text, s.tree.setContent id text = ⟨.error (.unknownNode id), []⟩
  shown : ¬ s.tree.Shows id
  told : ∀ op, ∀ call ∈ s.calls op, call.node ≠ id

/-- A handle that cannot be looked up is stale. -/
theorem Tended.stale (h : Tended g s) (hvalid : g.Valid) (hrank : g.Ranked)
    (hid : s.tree.lookup? id = none) : s.Stale id := by
  obtain ⟨rfl, -, roots, hgarden, -⟩ := h
  refine ⟨unknown_of_lookup hid, fun op hop => ?_, fun text => ?_, fun hshown => ?_,
    fun op call hcall heq => ?_⟩
  · have herr := perform_of_lookup hid hop
    exact ⟨herr, by rw [Session.step, herr], by rw [Session.calls, herr]⟩
  · rw [setContent, get_eq_error hid]
  · rw [lookup?_of_live (hgarden.live_of_shows hshown)] at hid
    cases hid
  · rw [Session.calls] at hcall
    split at hcall
    · next change hok =>
        rw [← heq, hgarden.lookup?_of_called hvalid hrank hok hcall] at hid
        cases hid
    · cases hcall

/-- **Stale handles stay stale.**  As long as no slot was released `2 ^ 32` times, a handle that was
released in the course of the calls `before` is stale after all later ones.  A handle that named a
node once and does not any more was released.  The next call answers, if it answers with a handle at
all, with one that names a node and was never released: that of a node that was there, and then it
changes nothing, or that of a new one, which no live node had.  What is noticed of a new content are
not released handles either.  All nodes have different handles, whose numbers of slots have 32 bits as
long as there are no more than `2 ^ 32` slots. -/
theorem stale_run {draft : Draft} (hbuild : draft.build = .ok g) {before later : List Operation}
    {op : Operation} (hfew : ∀ i, timesReleased (released g (before ++ later ++ [op])) i < 2 ^ 32)
    (hrun : run g (before ++ later) = s) :
    (∀ id ∈ released g before, s.Stale id) ∧
    (∀ id, (run g before).tree.Live id → ¬ s.tree.Live id → id ∈ released g (before ++ later)) ∧
    (∀ change x, s.tree.perform op = .ok change → change.value = .node x →
      x ∉ released g (before ++ later ++ [op]) ∧ change.tree.Live x ∧
        (change.tree = s.tree ∨ ¬ s.tree.Live x)) ∧
    (∀ n text change, op = .setContent n text → (s.tree.setContent n text).result = .ok change →
      ∀ notice ∈ change.notices, notice.node ∉ released g (before ++ later ++ [op])) ∧
    s.tree.Distinct s.created ∧
    ((run g (before ++ later ++ [op])).tree.slots.size ≤ 2 ^ 32 → ∀ id,
      id ∈ released g (before ++ later ++ [op]) ∨ (run g (before ++ later ++ [op])).tree.Live id →
        id.index < 2 ^ 32) := by
  have hvalid := Draft.build_valid hbuild
  have hrank := Draft.build_ranked hbuild
  have hlogged : (Tree.empty g).Logged (released g (before ++ later)) s.tree :=
    hrun ▸ run_logged g (before ++ later)
  have htended : Tended g s := hrun ▸ tended_run hvalid hrank (before ++ later)
  have hbefore := released_append g before later
  have hstale : ∀ id ∈ released g (before ++ later), s.Stale id := by
    intro id hid
    refine htended.stale hvalid hrank (hlogged.lookup?_eq_none ?_ hid)
    refine Nat.lt_of_le_of_lt ?_ (hfew id.index)
    rw [released_append g (before ++ later) [op], timesReleased_append]
    exact Nat.le_add_right _ _
  -- a handle that can be looked up after the next call was not released until then
  have hnext : ∀ change x, s.tree.perform op = .ok change →
      change.tree.lookup? x = some (change.tree.node x) →
      x ∉ released g (before ++ later ++ [op]) := by
    intro change x hok hlookup hmem
    have hafter := run_logged g (before ++ later ++ [op])
    have htree : (run g (before ++ later ++ [op])).tree = change.tree := by
      rw [run_append, hrun, List.foldl_cons, List.foldl_nil, step, hok]
    rw [← htree, hafter.lookup?_eq_none (hfew x.index) hmem] at hlookup
    cases hlookup
  obtain ⟨hgrammar, -, roots, hgarden, hroots⟩ := htended
  rw [← hgrammar] at hvalid hrank
  refine ⟨fun id hid => hstale id ?_, fun id hlive hgone => ?_, fun change x hok hx => ?_,
    fun n text change hop hok notice hnotice => ?_, ?_, fun hsize id hid => ?_⟩
  · rw [hbefore]
    exact List.mem_append_left _ hid
  · have hlater := foldl_logged later (run g before)
    rw [← run_append, hrun] at hlater
    rw [hbefore]
    exact List.mem_append_right _ (hlater.mem_of_not_live hlive hgone)
  · obtain ⟨hlive, hnew⟩ := hgarden.answered hvalid hrank hok hx
    exact ⟨hnext change x hok (lookup?_of_live hlive), hlive, hnew⟩
  · have hperform : s.tree.perform op = .ok (change.map fun _ => .done) := by
      rw [hop, perform, hok]
      rfl
    exact hnext _ _ hperform (hgarden.lookup?_of_noticed hvalid hrank hok hnotice)
  · rw [← hroots]
    exact hgarden.distinct
  · refine Nat.lt_of_lt_of_le ?_ hsize
    exact hid.elim ((run_logged g (before ++ later ++ [op])).within id) Live.size

end Session

/-! ### A run of digits -/

/-- Runs of the digit one. -/
def onesRules : Array Rule := #[.literal ['1'], .loop 0 .any]

/-- The draft of the runs. -/
def onesDraft : Draft := ⟨onesRules.map some, .empty, {}, .standard⟩

/-- The grammar of the runs. -/
def onesGrammar : Grammar where
  rules := onesRules
  resolved := #[0, 1]
  names := .empty
  limits := {}
  engine := .standard
  acceptors := Acceptors.ofRules .standard onesRules {} #[none, none]

theorem onesDraft_build : onesDraft.build = .ok onesGrammar := by with_unfolding_all rfl

/-- The split of a run of one digit. -/
def onesSplit : Split := .loop ⟨0, 1⟩ [.leaf ⟨0, 1⟩]

theorem resolve_ones : (resolve onesGrammar 1 ['1']).result = .ok onesSplit := by
  have hrun : Query.backtrackRun ⟨onesGrammar, ['1'], true⟩ 1 = .ok onesSplit := by
    with_unfolding_all rfl
  refine resolve_of_run (by decide +kernel) ?_
  exact (Query.run_eq_backtrackRun (Draft.build_valid onesDraft_build) rfl (by decide)).trans hrun

namespace Session

/-- The record of a call for a new content whose text has a split. -/
theorem stepLog_setContent {n : NodeId} {text : Text} {split : Split}
    (hlookup : s.tree.lookup? n = some (s.tree.node n))
    (hsplit : (resolve s.tree.grammar (s.tree.node n).definition text).result = .ok split) :
    s.stepLog (.setContent n text) = Edit.assignLog text split n ⟨s.tree, []⟩ := by
  simp [stepLog, Tree.perform, setContent_of_split hlookup hsplit, Except.map, performLog, hsplit]

/-- A run of one digit is made, and gets the same content once more. -/
def onesOperations : List Operation :=
  [.create 1, .setContent ⟨0, 0⟩ ['1'], .setContent ⟨0, 0⟩ ['1']]

/-- The new run. -/
def onesSprout : Session := ⟨((Tree.empty onesGrammar).allocFilled none 1).2, [⟨0, 0⟩]⟩

/-- A run with one digit for its content. -/
def onesFilled (s : Session) : Session :=
  ⟨(Edit.propagateUp ⟨0, 0⟩ (Edit.assign ['1'] onesSplit ⟨0, 0⟩ ⟨s.tree, []⟩)).tree, s.created⟩

/-- The second content takes the place of the first: the slot of the digit is used again at once. -/
theorem run_onesOperations :
    run onesGrammar onesOperations = onesFilled (onesFilled onesSprout) ∧
      released onesGrammar onesOperations = [⟨1, 0⟩] := by
  have hroot : ((Tree.empty onesGrammar).allocFilled none 1).1 = ⟨0, 0⟩ := rfl
  have hcontains : (Tree.empty onesGrammar).grammar.contains 1 = true := rfl
  have hperform : (Tree.empty onesGrammar).perform (.create 1) =
      .ok ⟨.node ⟨0, 0⟩, onesSprout.tree, []⟩ := by
    simp [Tree.perform, Tree.create, hcontains, hroot, Except.map, Change.map, onesSprout]
  have hcreate : step ⟨.empty onesGrammar, []⟩ (.create 1) = onesSprout := by
    rw [step, hperform]
    rfl
  have hcreateLog : stepLog ⟨.empty onesGrammar, []⟩ (.create 1) = [] := by
    rw [stepLog, hperform]
    rfl
  have hfirst : step onesSprout (.setContent ⟨0, 0⟩ ['1']) = onesFilled onesSprout :=
    step_setContent rfl resolve_ones
  have hfirstLog : stepLog onesSprout (.setContent ⟨0, 0⟩ ['1']) = [] :=
    (stepLog_setContent rfl resolve_ones).trans rfl
  have hsecond : step (onesFilled onesSprout) (.setContent ⟨0, 0⟩ ['1']) =
      onesFilled (onesFilled onesSprout) := step_setContent rfl resolve_ones
  have hsecondLog : stepLog (onesFilled onesSprout) (.setContent ⟨0, 0⟩ ['1']) = [⟨1, 0⟩] :=
    (stepLog_setContent rfl resolve_ones).trans rfl
  constructor
  · simp only [run, onesOperations, List.foldl_cons, List.foldl_nil, hcreate, hfirst, hsecond]
  · simp only [released, onesOperations, logEach, hcreate, hfirst, hcreateLog, hfirstLog,
      hsecondLog, List.nil_append, List.append_nil]

/-- The handle of the first digit is stale; that of the second one has the same slot. -/
theorem stale_run_ones :
    onesDraft.build = .ok onesGrammar ∧ released onesGrammar onesOperations = [⟨1, 0⟩] ∧
      (∀ i, timesReleased (released onesGrammar
        (onesOperations ++ [] ++ [.setContent ⟨1, 0⟩ ['1']])) i < 2 ^ 32) ∧
      (run onesGrammar onesOperations).tree.items ⟨0, 0⟩ = .ok [⟨1, 1⟩] ∧
      (run onesGrammar onesOperations).Stale ⟨1, 0⟩ := by
  obtain ⟨hrun, hreleased⟩ := run_onesOperations
  have hlookup : (onesFilled (onesFilled onesSprout)).tree.lookup? ⟨1, 0⟩ = none := rfl
  have hlast : stepLog (run onesGrammar onesOperations) (.setContent ⟨1, 0⟩ ['1']) = [] := by
    rw [stepLog, hrun, perform_of_lookup hlookup rfl]
  have hfew : ∀ i, timesReleased (released onesGrammar
      (onesOperations ++ [] ++ [.setContent ⟨1, 0⟩ ['1']])) i < 2 ^ 32 := by
    intro i
    rw [List.append_nil, released_append, hreleased, logEach, hlast]
    exact Nat.lt_of_le_of_lt List.countP_le_length (by decide)
  refine ⟨onesDraft_build, hreleased, hfew, by rw [hrun]; rfl, ?_⟩
  have hstale := stale_run onesDraft_build hfew (s := run onesGrammar onesOperations)
    (by rw [List.append_nil])
  exact hstale.1 ⟨1, 0⟩ (by simp [hreleased])

end Session

end Tessera
