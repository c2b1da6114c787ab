/-
**Presence.**

An optional node says whether its part is there.  Two things decide about that: a text that is split
for the optional, or for a node above it, is empty exactly when the part is not there; but a change of
the part itself only changes the content of the optional, and not whether the part is there.  So an
optional whose part was edited down to the empty text has an empty content and is present all the
same, although the very same content, given to the optional, makes it absent.

Main definitions:

* `Tessera.Tree.PresenceAgrees` — an optional is present exactly when its content is not empty;
* `Tessera.View.Frank` — all optionals that are shown are.

Main results:

* `Tessera.Split.Fits.frank` — **what follows a split is present exactly when it is not empty**;
* `Tessera.Session.presence_run` — an absent optional is empty, a present one holds the content of its
  part, and after a new content both agree everywhere below the node;
* `Tessera.Session.present_and_empty` — **an optional can be present and empty.**
-/

import Tessera.Proofs.Tree.Forgetting
import Tessera.Proofs.Tree.Reparsing
import Tessera.Proofs.Tree.Staleness

set_option autoImplicit false

namespace Tessera

open Branch Tessera.Tree

variable {g : Grammar} {t : Tree} {n c : NodeId} {text w : Text} {v : View} {vs : List View}
  {ids : List NodeId} {roots : List Branch}

/-! ### Views -/

/-- Every optional that is shown is present exactly when its content is not empty. -/
inductive View.Frank : View → Prop
  | node {d : DefId} {content : Option Text} {selection : Selection} {parts : List View}
      (agrees : ∀ present w, selection = .optional present → content = some w →
        (present = true ↔ w ≠ []))
      (parts_frank : ∀ v ∈ parts, v.Frank) : Frank (.node d content selection parts)

/-- What shows anything but an optional is frank when its parts are. -/
theorem View.Frank.of_parts {d : DefId} {content : Option Text} {selection : Selection}
    (h : ∀ present, selection ≠ .optional present) (hvs : ∀ v ∈ vs, v.Frank) :
    (View.node d content selection vs).Frank :=
  .node (fun present _ heq => absurd heq (h present)) hvs

/-- A range that is not empty has a text that is not empty. -/
theorem IsRange.slice_ne_nil {start stop : Nat} (h : IsRange text start stop) (hlt : start < stop) :
    slice text start stop ≠ [] := by
  intro hempty
  have hstop := slice?_stop h.slice?
  rw [hempty] at hstop
  have hzero : byteLength [] = 0 := rfl
  omega

namespace Split

mutual

/-- **What follows a split is present exactly when it is not empty.** -/
theorem Fits.frank : ∀ {s : Split} {d : DefId}, s.Fits g text d → (s.view g text d).Frank
  | .leaf _, _, _ => .of_parts (by simp) (by simp)
  | .sequence _ parts, d, ⟨_, _, items, hshape, hall⟩ => by
      refine .of_parts (by simp) ?_
      rw [hshape]
      exact FitAll.frank hall
  | .choice _ index inner, d, ⟨_, _, alternatives, a, hshape, ha, hfits⟩ => by
      refine .of_parts (by simp) fun v hv => ?_
      obtain rfl := List.mem_singleton.1 hv
      rw [hshape, Rule.references, List.getD_eq_getElem?_getD, ha]
      exact Fits.frank hfits
  | .absent span, d, ⟨hrange, hempty, _⟩ => by
      refine .node (fun present w hselection hw => ?_) (by simp)
      obtain rfl := Selection.optional.inj hselection
      obtain rfl := Option.some.inj hw
      rw [← hempty] at hrange ⊢
      simp [slice?_self_eq hrange.slice?]
  | .present span inner, d, ⟨hrange, hlt, _, item, quantifier, hshape, hfits⟩ => by
      refine .node (fun present w hselection hw => ?_) fun v hv => ?_
      · obtain rfl := Selection.optional.inj hselection
        obtain rfl := Option.some.inj hw
        simp [hrange.slice_ne_nil hlt]
      · obtain rfl := List.mem_singleton.1 hv
        rw [hshape]
        exact Fits.frank hfits
  | .loop _ items, d, ⟨_, _, item, repetition, hshape, _, heach⟩ => by
      refine .of_parts (by simp) ?_
      rw [hshape]
      exact FitEach.frank heach
  | .separated _ items separators, d,
      ⟨_, _, item, separator, default, repetition, hshape, _, _, hitems, hseparators⟩ => by
      refine .of_parts (by simp) fun v hv => ?_
      rw [hshape] at hv
      rcases mem_interleave_iff.1 hv with hv | hv
      · exact FitEach.frank hitems v hv
      · exact FitEach.frank hseparators v hv

theorem FitAll.frank : ∀ {ss : List Split} {ds : List DefId}, FitAll g text ss ds →
    ∀ v ∈ viewAll g text ss ds, v.Frank
  | [], _, _, _, hv => by simp [viewAll] at hv
  | s :: ss, _, ⟨d, ds, rfl, hfits, hall⟩, v, hv => by
      rcases List.mem_cons.1 hv with rfl | hv
      · exact Fits.frank hfits
      · exact FitAll.frank hall v hv

theorem FitEach.frank : ∀ {ss : List Split} {d : DefId}, FitEach g text ss d →
    ∀ v ∈ viewEach g text ss d, v.Frank
  | [], _, _, _, hv => by simp [viewEach] at hv
  | s :: ss, d, ⟨hfits, heach⟩, v, hv => by
      rcases List.mem_cons.1 hv with rfl | hv
      · exact Fits.frank hfits
      · exact FitEach.frank heach v hv

end

end Split

/-! ### Nodes -/

namespace Tree

/-- If the node is an optional that holds a content, it is present exactly when the content is not
empty. -/
def PresenceAgrees (t : Tree) (n : NodeId) : Prop :=
  ∀ present w, t.isPresent n = .ok present → t.content n = .ok w → (present = true ↔ w ≠ [])

/-- What a call for the presence of a node looks at. -/
theorem isPresent_ok {present : Bool} (h : t.isPresent n = .ok present) :
    t.get n = .ok (t.node n) ∧ ∃ child, (t.node n).body = .optional child present := by
  obtain ⟨node, hget, h⟩ := Except.bind_eq_ok.1 h
  obtain ⟨-, -, rfl⟩ := lookup?_eq_some.1 (get_eq_ok.1 hget)
  refine ⟨hget, ?_⟩
  cases hbody : (t.node n).body <;> simp_all [mismatch]

/-- What a call for the content of a node looks at. -/
theorem content_ok (h : t.content n = .ok w) : (t.node n).content = some w := by
  obtain ⟨node, hget, h⟩ := Except.bind_eq_ok.1 h
  obtain ⟨-, -, rfl⟩ := lookup?_eq_some.1 (get_eq_ok.1 hget)
  cases hcontent : (t.node n).content <;> simp_all

/-- Each of several nodes shows one of the views. -/
theorem DisplayAll.exists_view (h : t.DisplayAll vs ids) (hc : c ∈ ids) :
    ∃ v ∈ vs, t.Displays v c := by
  induction vs generalizing ids with
  | nil =>
      cases ids with
      | nil => cases hc
      | cons _ _ => exact h.elim
  | cons v vs ih =>
      cases ids with
      | nil => exact h.elim
      | cons id ids =>
          rcases List.mem_cons.1 hc with rfl | hc
          · exact ⟨v, List.mem_cons_self, h.1⟩
          · obtain ⟨u, hu, hdisplays⟩ := ih h.2 hc
            exact ⟨u, List.mem_cons_of_mem v hu, hdisplays⟩

/-- Where a node shows something frank, presence agrees with the contents. -/
theorem Displays.presenceAgrees (h : t.Displays v n) (hv : v.Frank) : t.PresenceAgrees n := by
  intro present w hpresent hw
  obtain ⟨-, child, hbody⟩ := isPresent_ok hpresent
  cases hv with
  | node hagrees _ =>
      obtain ⟨-, hcontent, hselection, -⟩ := h
      refine hagrees present w ?_ ?_
      · rw [← hselection, hbody]
        rfl
      · rw [← hcontent, content_ok hw]

/-- The nodes that make up a frank content are frank. -/
theorem Displays.presenceAgrees_below (h : t.Displays v n) (hv : v.Frank)
    (hc : t.ActiveBelow n c) : t.PresenceAgrees c := by
  induction hc using Relation.ReflTransGen.head_induction_on generalizing v with
  | refl => exact h.presenceAgrees hv
  | head hstep _ ih =>
      cases hv with
      | node _ hparts =>
          obtain ⟨-, -, -, hall⟩ := h
          obtain ⟨u, hu, hdisplays⟩ := hall.exists_view hstep
          exact ih hdisplays (hparts u hu)

end Tree

/-! ### Trees in use -/

section

variable (h : Garden t roots)
include h

/-- An absent optional holds the empty text, and a present one the content of its part. -/
theorem Garden.presence {present : Bool} (hpresent : t.isPresent n = .ok present)
    (hw : t.content n = .ok w) :
    (present = false → w = []) ∧ (present = true → ∃ item quantifier c,
      t.shapeOf n = .optional item quantifier ∧ t.Live c ∧ t.children n = .ok [c] ∧
        (t.node c).definition = item ∧ t.content c = .ok w) := by
  obtain ⟨hget, child, hbody⟩ := isPresent_ok hpresent
  have hn : n ∈ idsAll roots := by
    rcases h.live_or_vacant (get_eq_ok.1 hget) with hn | ⟨-, hvacant⟩
    · exact hn
    · rw [hvacant.body] at hbody
      cases hbody
  have hlive : t.Live n := h.live_iff.2 hn
  have hsound := h.sound n hn
  obtain ⟨item, quantifier, hshape⟩ := hsound.formed.shape_optional hbody
  obtain ⟨children, ws, hchildren, hws, rfl⟩ :=
    madeUp_of_garden h hn (by simp [hshape, Rule.isLeaf]) (content_ok hw)
  have hactive := hlive.children_eq
  rw [hchildren, hbody] at hactive
  obtain rfl := Except.ok.inj hactive
  constructor
  · rintro rfl
    obtain rfl : ws = [] := by simpa [Body.active] using hws.symm
    rfl
  · rintro rfl
    obtain ⟨child', present', hbody', hdef, hsome⟩ := (formed_optional_iff hshape).1 hsound.formed
    obtain ⟨rfl, rfl⟩ : child = child' ∧ true = present' := by simpa [hbody] using hbody'
    obtain ⟨c, rfl⟩ := Option.isSome_iff_exists.1 (hsome rfl)
    obtain ⟨u, rfl, hu⟩ : ∃ u, ws = [u] ∧ t.content c = .ok u := by
      cases ws with
      | nil => simp [Body.active] at hws
      | cons u us => cases us <;> simp_all [Body.active]
    have hc : t.Live c :=
      h.live_iff.2 (h.owned_mem hn (by rw [hbody]; exact Option.mem_toList.2 rfl)).1
    exact ⟨item, quantifier, c, hshape, hc, hchildren, hdef c rfl, by simpa using hu⟩

/-- When the part of an optional cannot be empty, presence agrees with the content. -/
theorem Garden.presenceAgrees (hvalid : t.grammar.Valid) {item : DefId}
    {quantifier : Quantifier} (hshape : t.shapeOf n = .optional item quantifier)
    (hitem : ¬ t.grammar.Derives item []) : t.PresenceAgrees n := by
  intro present w hpresent hw
  obtain ⟨habsent, hpart⟩ := h.presence hpresent hw
  cases present with
  | false => simp [habsent rfl]
  | true =>
      refine ⟨fun _ => ?_, fun _ => rfl⟩
      rintro rfl
      obtain ⟨item', quantifier', c, hshape', hlive, -, hdef, hc⟩ := hpart rfl
      obtain ⟨rfl, -⟩ : item = item' ∧ quantifier = quantifier' := by
        simpa [hshape] using hshape'
      exact hitem (hdef ▸ h.derives hvalid (h.live_iff.1 hlive) [] (content_ok hc))

end

/-- **What is present in a tree in use.**  An absent optional with a content holds the empty text, and
a present one holds the content of its part; so the two disagree only where the part holds the empty
text, and nowhere when the definition of the part does not accept it.  After a node has received a new
content, presence agrees with the content for every optional that the content is made up of. -/
theorem Session.presence_run {draft : Draft} (hbuild : draft.build = .ok g) (ops : List Operation)
    (hrun : (Session.run g ops).tree = t) :
    (∀ n present w, t.isPresent n = .ok present → t.content n = .ok w →
      (present = false → w = []) ∧ (present = true → ∃ item quantifier c,
        t.shapeOf n = .optional item quantifier ∧ t.Live c ∧ t.children n = .ok [c] ∧
          (t.node c).definition = item ∧ t.content c = .ok w)) ∧
    (∀ n item quantifier, t.shapeOf n = .optional item quantifier → ¬ g.Derives item [] →
      t.PresenceAgrees n) ∧
    ∀ n text change, t.Live n → (t.setContent n text).result = .ok change →
      ∀ c, change.tree.ActiveBelow n c → change.tree.PresenceAgrees c := by
  have hvalid := Draft.build_valid hbuild
  have hrank := Draft.build_ranked hbuild
  subst hrun
  obtain ⟨hgrammar, -, roots, hgarden, -⟩ := Session.tended_run hvalid hrank ops
  generalize (Session.run g ops).tree = t at *
  subst hgrammar
  refine ⟨fun n present w => hgarden.presence, fun n item quantifier => ?_, ?_⟩
  · exact hgarden.presenceAgrees hvalid
  · intro n text change hlive hok c hc
    obtain ⟨split, roots', hsplit, -, -, -, hdisplays⟩ :=
      hgarden.displays_setContent hvalid hrank hlive hok
    exact hdisplays.presenceAgrees_below (split_fits hvalid hsplit).1.frank hc

/-! ### A run of digits that may be missing -/

/-- A run of the digit one that may be missing.  The run itself may be empty, too. -/
def maybeRules : Array Rule := #[.literal ['1'], .loop 0 .any, .optional 1 .greedy]

/-- The draft of the runs that may be missing. -/
def maybeDraft : Draft := ⟨maybeRules.map some, .empty, {}, .standard⟩

/-- The grammar of the runs that may be missing. -/
def maybeGrammar : Grammar where
  rules := maybeRules
  resolved := #[0, 1, 2]
  names := .empty
  limits := {}
  engine := .standard
  acceptors := Acceptors.ofRules .standard maybeRules {} #[none, none, none]

theorem maybeDraft_build : maybeDraft.build = .ok maybeGrammar := by with_unfolding_all rfl

/-- The split of a run of one digit that is there. -/
def maybeSplit : Split := .present ⟨0, 1⟩ onesSplit

theorem resolve_maybe : (resolve maybeGrammar 2 ['1']).result = .ok maybeSplit := by
  have hrun : Query.backtrackRun ⟨maybeGrammar, ['1'], true⟩ 2 = .ok maybeSplit := by
    with_unfolding_all rfl
  refine resolve_of_run (by decide +kernel) ?_
  exact (Query.run_eq_backtrackRun (Draft.build_valid maybeDraft_build) rfl (by decide)).trans hrun

namespace Session

/-- The optional run, with one digit for its content. -/
def maybeFilled : Session :=
  ⟨(Edit.propagateUp ⟨0, 0⟩ (Edit.assign ['1'] maybeSplit ⟨0, 0⟩
    ⟨((Tree.empty maybeGrammar).allocFilled none 2).2, []⟩)).tree, [⟨0, 0⟩]⟩

theorem run_maybe : run maybeGrammar [.create 2, .setContent ⟨0, 0⟩ ['1']] = maybeFilled := by
  have hroot : ((Tree.empty maybeGrammar).allocFilled none 2).1 = ⟨0, 0⟩ := rfl
  have hcontains : (Tree.empty maybeGrammar).grammar.contains 2 = true := rfl
  have hcreate : step ⟨.empty maybeGrammar, []⟩ (.create 2) =
      ⟨((Tree.empty maybeGrammar).allocFilled none 2).2, [⟨0, 0⟩]⟩ := by
    simp [step, Tree.perform, Tree.create, hcontains, hroot, Except.map, Change.map, createdBy]
  have hset : step ⟨((Tree.empty maybeGrammar).allocFilled none 2).2, [⟨0, 0⟩]⟩
      (.setContent ⟨0, 0⟩ ['1']) = maybeFilled := step_setContent rfl resolve_maybe
  simp only [run, List.foldl_cons, List.foldl_nil, hcreate, hset]

/-- The optional run holds its digit and is present. -/
theorem presence_run_maybe :
    maybeDraft.build = .ok maybeGrammar ∧ maybeFilled.tree.content ⟨0, 0⟩ = .ok ['1'] ∧
      ∃ c, maybeFilled.tree.children ⟨0, 0⟩ = .ok [c] ∧ maybeFilled.tree.content c = .ok ['1'] := by
  have hcontent : maybeFilled.tree.content ⟨0, 0⟩ = .ok ['1'] := rfl
  have hpresent : maybeFilled.tree.isPresent ⟨0, 0⟩ = .ok true := rfl
  obtain ⟨hfirst, -, -⟩ := presence_run maybeDraft_build [.create 2, .setContent ⟨0, 0⟩ ['1']]
    (congrArg Session.tree run_maybe)
  obtain ⟨-, -, c, -, -, hchildren, -, hc⟩ := (hfirst _ _ _ hpresent hcontent).2 rfl
  exact ⟨maybeDraft_build, hcontent, c, hchildren, hc⟩

/-- **An optional can be present and empty**: once the only digit is removed from the run inside, the
optional holds the empty text and is still present. -/
theorem present_and_empty :
    maybeDraft.build = .ok maybeGrammar ∧
      ∃ t, (run maybeGrammar [.create 2, .setContent ⟨0, 0⟩ ['1'], .remove ⟨1, 0⟩ 0]).tree = t ∧
        t.isPresent ⟨0, 0⟩ = .ok true ∧ t.content ⟨0, 0⟩ = .ok [] ∧ ¬ t.PresenceAgrees ⟨0, 0⟩ := by
  obtain ⟨hpresent, hcontent⟩ :
      (maybeFilled.step (.remove ⟨1, 0⟩ 0)).tree.isPresent ⟨0, 0⟩ = .ok true ∧
        (maybeFilled.step (.remove ⟨1, 0⟩ 0)).tree.content ⟨0, 0⟩ = .ok [] := ⟨rfl, rfl⟩
  refine ⟨maybeDraft_build, _, rfl, ?_⟩
  have hrun : run maybeGrammar [.create 2, .setContent ⟨0, 0⟩ ['1'], .remove ⟨1, 0⟩ 0] =
      maybeFilled.step (.remove ⟨1, 0⟩ 0) :=
    congrArg (fun s : Session => s.step (.remove ⟨1, 0⟩ 0)) run_maybe
  rw [hrun]
  exact ⟨hpresent, hcontent, fun h => ((h true [] hpresent hcontent).1 rfl) rfl⟩

end Session

end Tessera
