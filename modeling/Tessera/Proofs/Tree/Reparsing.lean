/-
**Contents can be read again.**

Edits below a node compose its content anew and never look at its text again.  The text belongs to the
definition of the node all the same: a node that is in order has the parts that its rule asks for, and
when what they hold belongs to their definitions, so does what it holds.  The search finds every such
text, so the content of a node can always be set once more, and then no content outside of the node
changes.

Main definitions:

* `Tessera.Tree.held` — the text that a node holds.

Main results:

* `Tessera.Tree.Sound.derives` — **what a node in order holds belongs to its definition when that
  holds of its parts**;
* `Tessera.Garden.derives` — what a node of a tree in order holds belongs to its definition;
* `Tessera.Session.reparse_run` — **every content of a tree in use can be set again**.
-/

import Tessera.Proofs.Search.Completeness
import Tessera.Proofs.Tree.Splicing

set_option autoImplicit false

namespace Tessera

open Branch Tessera.Tree

variable {t : Tree} {n : NodeId} {w : Text} {g : Grammar} {roots : List Branch} {b : Branch}
  {parent : Option NodeId}

namespace Tree

/-! ### A node and its parts -/

/-- The text that a node holds. -/
def held (t : Tree) (c : NodeId) : Text := (t.node c).content.getD []

/-- What the node holds, if anything, belongs to its definition. -/
def Derived (t : Tree) (c : NodeId) : Prop :=
  ∀ w, (t.node c).content = some w → t.grammar.Derives (t.node c).definition w

/-- What a node with a content holds belongs to its definition. -/
theorem Derived.held {c : NodeId} (h : t.Derived c) (hset : (t.node c).content.isSome) :
    t.grammar.Derives (t.node c).definition (t.held c) := by
  obtain ⟨w, hw⟩ := Option.isSome_iff_exists.1 hset
  rw [Tree.held, hw]
  exact h w hw

/-- **What a node in order holds belongs to its definition when that holds of its parts.** -/
theorem Sound.derives (h : t.Sound n) (hvalid : t.grammar.Valid)
    (hparts : ∀ c ∈ (t.node n).body.active, t.Derived c) : t.Derived n := by
  intro w hw
  have hset : (t.node n).content.isSome := Option.isSome_iff_exists.2 ⟨w, hw⟩
  have hcomposed := h.composed w hw
  by_cases hleaf : (t.shapeOf n).isLeaf = true
  · rw [if_pos hleaf] at hcomposed
    exact Split.leaf_denotes hvalid hcomposed
  rw [if_neg hleaf] at hcomposed
  have hheld : ∀ c ∈ (t.node n).body.active,
      t.grammar.Derives (t.node c).definition (t.held c) :=
    fun c hc => (hparts c hc).held (h.settled.active hset c hc)
  -- the content, as the texts of the active parts in a row
  have hflat : w = ((t.node n).body.active.map t.held).flatten := by
    rw [hcomposed, contents, List.flatMap_def]
    rfl
  rw [hvalid.derives_iff_shape]
  cases hshape : t.shapeOf n with
  | sequence items =>
      obtain ⟨children, hbody, hdefs⟩ := (formed_sequence_iff hshape).1 h.formed
      rw [show t.grammar.shape (t.node n).definition = _ from hshape]
      rw [hbody] at hheld hflat
      refine ⟨children.map t.held, ?_, hflat⟩
      rw [← hdefs, List.map_map, List.forall₂_map_left_iff, List.forall₂_map_right_iff]
      exact List.forall₂_same.2 hheld
  | choice defs =>
      obtain ⟨alternatives, current, hbody, -, hdefs, hsome⟩ :=
        (formed_choice_iff hshape).1 h.formed
      obtain ⟨c, hc⟩ := Option.isSome_iff_exists.1
        (hsome (h.settled.chosen hset alternatives current hbody))
      obtain ⟨i, rfl, hi⟩ := Body.mem_currentOf hc
      have hactive : (t.node n).body.active = [c] := by
        rw [hbody, Body.active, hc]
        rfl
      rw [show t.grammar.shape (t.node n).definition = _ from hshape]
      rw [hactive] at hheld hflat
      have hw : w = t.held c := by simpa using hflat
      exact ⟨_, List.mem_of_getElem? (hdefs i c hi), hw ▸ hheld c (List.mem_singleton_self c)⟩
  | optional item quantifier =>
      obtain ⟨child, present, hbody, hdef, hpresent⟩ := (formed_optional_iff hshape).1 h.formed
      rw [show t.grammar.shape (t.node n).definition = _ from hshape]
      cases present with
      | false =>
          rw [hbody] at hflat
          exact .inl hflat
      | true =>
          obtain ⟨c, rfl⟩ := Option.isSome_iff_exists.1 (hpresent rfl)
          rw [hbody] at hheld hflat
          have hw : w = t.held c := by simpa [Body.active] using hflat
          have hc := hheld c (List.mem_singleton_self c)
          rw [hdef c rfl, ← hw] at hc
          exact .inr hc
  | loop item repetition =>
      obtain ⟨items, hbody, hdefs⟩ := (formed_loop_iff hshape).1 h.formed
      have hadmits := h.settled.admitted hset repetition (by rw [hshape]; rfl)
      rw [show t.grammar.shape (t.node n).definition = _ from hshape]
      rw [hbody] at hheld hflat hadmits
      refine ⟨items.map t.held, by rwa [List.length_map], fun u hu => ?_, hflat⟩
      obtain ⟨c, hc, rfl⟩ := List.mem_map.1 hu
      exact hdefs c hc ▸ hheld c hc
  | separated item separator default repetition =>
      obtain ⟨items, separators, hbody, hitems, hseparators, hlength⟩ :=
        (formed_separated_iff hshape).1 h.formed
      have hadmits := h.settled.admitted hset repetition (by rw [hshape]; rfl)
      rw [show t.grammar.shape (t.node n).definition = _ from hshape]
      rw [hbody] at hheld hflat hadmits
      rw [Body.active, Body.interleave_eq (by omega)] at hheld hflat
      refine ⟨items.map t.held, separators.map t.held, by rwa [List.length_map], by simpa using hlength,
        fun u hu => ?_, fun v hv => ?_, by rw [hflat, map_interleave]⟩
      · obtain ⟨c, hc, rfl⟩ := List.mem_map.1 hu
        exact hitems c hc ▸ hheld c (mem_interleave_iff.2 (.inl hc))
      · obtain ⟨c, hc, rfl⟩ := List.mem_map.1 hv
        exact hseparators c hc ▸ hheld c (mem_interleave_iff.2 (.inr hc))
  | literal text => simp [hshape, Rule.isLeaf] at hleaf
  | pattern source => simp [hshape, Rule.isLeaf] at hleaf
  | empty => simp [hshape, Rule.isLeaf] at hleaf
  | _ =>
      -- a structural rule does not stand for another one
      have htarget := hvalid.target?_shape (t.node n).definition
      rw [← shapeOf, hshape] at htarget
      simp [Rule.target?] at htarget

/-! ### Whole trees -/

/-- What the nodes of a branch hold belongs to their definitions. -/
theorem derived_of_stands (hvalid : t.grammar.Valid) (hstands : b.Stands t parent)
    (hsound : ∀ id ∈ b.ids, t.Sound id) : t.Derived b.root := by
  induction hstands with
  | @fork _ id parts _ _ _ howned _ ih =>
      refine (hsound id List.mem_cons_self).derives hvalid fun c hc => ?_
      have hmem := Body.owned_of_active hc
      rw [howned] at hmem
      obtain ⟨b, hb, rfl⟩ := List.mem_map.1 hmem
      exact ih b hb fun x hx => hsound x (List.mem_cons_of_mem _ (mem_idsAll.2 ⟨b, hb, hx⟩))

end Tree

/-- What a node of a tree in order holds belongs to its definition. -/
theorem Garden.derives (h : Garden t roots) (hvalid : t.grammar.Valid) (hn : n ∈ idsAll roots) :
    t.Derived n := by
  obtain ⟨b, c, hb, hin, rfl, hstands⟩ := h.exists_branch hn
  exact derived_of_stands hvalid hstands
    fun x hx => h.sound x (mem_idsAll.2 ⟨b, hb, hin.subset hx⟩)

/-! ### Setting a content again -/

section Texts

variable (hg : g.Valid) (hquantifiers : g.NonPossessive) (hlimit : g.limits.recursionLimit = none)
  (hreg : g.Regular) {d : DefId}
include hg hlimit hreg

/-- A definition that does not exist accepts the empty text. -/
theorem resolve_of_size_le (hd : g.size ≤ d) (hw : g.Derives d w) :
    ∃ split, (resolve g d w).result = .ok split := by
  have hrule := Grammar.rule_of_le hd
  have hempty : w = [] := by
    have := Grammar.derives_iff.1 hw
    rwa [hrule] at this
  subst hempty
  have hshape : g.shape d = .empty := by
    rw [Grammar.shape, hg.resolve_self d (by rw [hrule]; rfl), hrule]
  have hrun : (Query.run ⟨g, [], true⟩ d).1 = .ok (.leaf ⟨0, 0⟩) := by
    simp [Query.run, Query.parse, SearchState.start, hlimit, Query.parseShape, hshape, Query.leaf]
  exact ⟨_, resolve_of_run ((hg.definition_admits hreg d).whole [] hw) hrun⟩

include hquantifiers

/-- Every text of a definition is accepted, whether the definition exists or not. -/
theorem resolve_of_derives (hw : g.Derives d w) : ∃ split, (resolve g d w).result = .ok split := by
  by_cases hd : d < g.size
  · exact (resolve_ok_iff_derives hg hquantifiers hlimit hreg hd w).2 hw
  · exact resolve_of_size_le hg hlimit hreg (Nat.not_lt.1 hd) hw

end Texts

/-- A content that is the same as before changes no content outside of its node. -/
theorem Tree.content_outside {t' : Tree} {m : NodeId} (hspliced : t.Spliced t' n)
    (huntouched : t.Untouched t' n) (hw : t.content n = .ok w) (hw' : t'.content n = .ok w)
    (hm : t.Live m) (hoff : ¬ t.Below n m) : t'.content m = t.content m := by
  by_cases hchain : t.ActiveBelow m n ∧ (t.node m).content.isSome
  · obtain ⟨hbelow, hset⟩ := hchain
    obtain ⟨v, hv⟩ := Option.isSome_iff_exists.1 hset
    have hv := hm.content_eq_ok.2 hv
    have hne : m ≠ n := fun h => hoff (h ▸ .refl)
    obtain ⟨before, old, new, after, -, hold, hnew, rfl, hafter⟩ := hspliced m v hm hne hbelow hv
    obtain rfl : w = old := Except.ok.inj (hw.symm.trans hold)
    obtain rfl : w = new := Except.ok.inj (hw'.symm.trans hnew)
    rw [hafter, hv]
  · obtain ⟨hlive, hnode⟩ := huntouched m hm hoff hchain
    rw [Tree.content, Tree.content, hm.get_eq, hlive.get_eq, hnode]

/-- **Every content of a tree in use can be set again**, when the engine keeps its laws, no repetition
is possessive, no pattern has a condition on a position and the nesting of the search is not limited.
However the tree was edited, setting a node to the content that it has succeeds, leaves that content
and the contents of all live nodes outside of its branch as they are, and the content matches the
pattern of the definition of the node. -/
theorem Session.reparse_run {draft : Draft} (hbuild : draft.build = .ok g)
    (hlawful : g.engine.Lawful) (hquantifiers : g.NonPossessive)
    (hlimit : g.limits.recursionLimit = none) (hfree : g.LookFree)
    {ops : List Operation} (hrun : (Session.run g ops).tree = t) (hn : t.Live n)
    (hw : t.content n = .ok w) :
    (∃ change, (t.setContent n w).result = .ok change ∧ change.tree.content n = .ok w ∧
      ∀ m, t.Live m → ¬ t.Below n m → change.tree.content m = t.content m) ∧
    ∃ d, t.definition n = .ok d ∧ g.feasible d w = true := by
  have hvalid := Draft.build_valid hbuild
  have hrank := Draft.build_ranked hbuild
  have hreg : g.Regular := ⟨hlawful, hfree⟩
  obtain ⟨hgrammar, -, roots, hgarden, -⟩ := Session.tended_run hvalid hrank ops
  rw [hrun] at hgrammar hgarden
  subst hgrammar
  have hderives := hgarden.derives hvalid (hgarden.live_iff.1 hn) w (hn.content_eq_ok.1 hw)
  obtain ⟨split, hsplit⟩ := resolve_of_derives hvalid hquantifiers hlimit hreg hderives
  have hset := setContent_of_split (get_eq_ok.1 hn.get_eq) hsplit
  obtain ⟨hw', hspliced, huntouched⟩ := hgarden.setContent_spliced hvalid hrank hset
  exact ⟨⟨_, hset, hw', fun m hm hoff => content_outside hspliced huntouched hw hw' hm hoff⟩,
    _, hn.definition_eq, (hvalid.definition_admits hreg _).whole w hderives⟩

/-- The first part of a row got a second letter, and the content of the row was composed anew; it can
be set again. -/
theorem Session.reparse_run_row :
    rowLonger.tree.content ⟨0, 0⟩ = .ok ['a', 'a', 'a'] ∧
      ∃ change, (rowLonger.tree.setContent ⟨0, 0⟩ ['a', 'a', 'a']).result = .ok change := by
  have hrun : (run rowGrammar (rowOperations ++ [.setContent ⟨2, 0⟩ ['a', 'a']])).tree =
      rowLonger.tree := by
    have htree := run_rowOperations
    rw [run] at htree ⊢
    rw [List.foldl_append, List.foldl_cons, List.foldl_nil, Session.step, htree, Tree.perform,
      setContent_row]
    rfl
  have hlive : rowLonger.tree.Live ⟨0, 0⟩ := by decide
  have hcontent : rowLonger.tree.content ⟨0, 0⟩ = .ok ['a', 'a', 'a'] := rfl
  obtain ⟨⟨change, hset, -⟩, -⟩ := Session.reparse_run rowDraft_build Engine.standard_lawful
    rowGrammar_nonPossessive rfl rowGrammar_lookFree hrun hlive hcontent
  exact ⟨hcontent, change, hset⟩

end Tessera
