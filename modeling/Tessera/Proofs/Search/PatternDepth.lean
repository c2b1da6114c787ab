/-
**The depth of patterns.**

How often a definition may re-enter itself in its pattern is a limit of the grammar.  Patterns that
are cut off earlier let more candidates through, but a candidate that brings a split is the end of a
text of the item, and this no pattern rules out.  So two grammars with the same rules try the same
candidates in the same order, apart from some that bring nothing, and find the same splits.

This takes quantifiers that give no candidate up.  A possessive one takes the last candidate alone,
and this may be one that only the cut off pattern lets through: then the depth decides whether there is
a split, although it is meant to bound the size of patterns and nothing else.

Main definitions:

* `Tessera.Arrangement` — the order in which candidates are tried;
* `Tessera.Grammar.Alike` — the same rules;
* `Tessera.Draft.withDepth` — the same draft with patterns of another depth.

Main results:

* `Tessera.Arrangement.findSome?_eq` — **candidates that bring nothing do not matter**;
* `Tessera.Grammar.Alike.plain_same` — grammars with the same rules find the same parts;
* `Tessera.resolve_withDepth` — **the depth of patterns does not decide about splits**;
* `Tessera.resolve_withDepth_possessive` — but it does when a repetition is possessive.
-/

import Mathlib.Data.List.Sort
import Tessera.Proofs.Search.Completeness

set_option autoImplicit false

namespace Tessera

/-! ### Candidates in order -/

/-- An order in which candidates from `lo` on are tried.  It does not depend on candidates that are
left out. -/
structure Arrangement (lo : Nat) (arrange : List Nat → List Nat) : Prop where
  mem : ∀ ends, ∀ e ∈ arrange ends, e ∈ ends
  filter : ∀ (p : Nat → Bool) ends, Ascending lo ends →
    arrange (ends.filter p) = (arrange ends).filter p

/-- The candidates for the end of an item are given in ascending order. -/
theorem Query.allEnds_ascending {q : Query} (hg : q.grammar.Valid) (item : DefId)
    (cursor stop : Nat) : Ascending cursor (q.allEnds item cursor stop) := by
  rw [allEnds, hg.definition_eq]
  refine ⟨Matcher.prefixEnds_ascending.pairwise.map _ fun a b hab => by omega, fun e he => ?_⟩
  obtain ⟨n, -, rfl⟩ := List.mem_map.1 he
  exact Nat.le_add_right cursor n

/-- A greedy loop tries an empty item last, and the others in ascending order. -/
theorem LoopPlan.itemOrder_greedy {p : LoopPlan} (h : p.repetition.quantifier = .greedy)
    {cursor : Nat} {ends : List Nat} (hends : Ascending cursor ends) :
    p.itemOrder cursor ends = ends.filter (· != cursor) ++ ends.filter (· == cursor) := by
  cases ends with
  | nil => simp [itemOrder, h]
  | cons e rest =>
      obtain ⟨hpairwise, hle⟩ := hends
      have hrest : ∀ x ∈ rest, x ≠ cursor := fun x hx => by
        have := List.rel_of_pairwise_cons hpairwise hx
        have := hle e List.mem_cons_self
        omega
      have hne : rest.filter (· != cursor) = rest :=
        List.filter_eq_self.2 fun x hx => bne_iff_ne.2 (hrest x hx)
      have heq : rest.filter (· == cursor) = [] :=
        List.filter_eq_nil_iff.2 fun x hx => by simpa using hrest x hx
      rw [List.filter_cons, List.filter_cons, hne, heq]
      by_cases he : e = cursor
      · cases rest <;> simp [itemOrder, h, he]
      · cases rest <;> simp [itemOrder, h, he]

namespace Arrangement

variable {lo : Nat} {arrange : List Nat → List Nat}

/-- Greedy and lazy items are arrangements of their candidates. -/
theorem order {quantifier : Quantifier} (h : quantifier ≠ .possessive) :
    Arrangement lo quantifier.order where
  mem ends e he := Quantifier.mem_of_order he
  filter p ends _ := by
    cases quantifier with
    | greedy => exact List.filter_reverse.symm
    | lazy => rfl
    | possessive => exact absurd rfl h

/-- So are the items of greedy and lazy loops: an empty item stands last. -/
theorem itemOrder {p : LoopPlan} (h : p.repetition.quantifier ≠ .possessive) {cursor : Nat} :
    Arrangement cursor (p.itemOrder cursor) where
  mem ends e he := LoopPlan.mem_of_itemOrder he
  filter keep ends hends := by
    cases hquantifier : p.repetition.quantifier with
    | greedy =>
        rw [LoopPlan.itemOrder_greedy hquantifier hends,
          LoopPlan.itemOrder_greedy hquantifier (hends.filter keep), List.filter_append]
        congr 1 <;> exact List.filter_comm _ _ _
    | lazy =>
        simp only [LoopPlan.itemOrder, hquantifier]
        exact List.filter_reverse.symm
    | possessive => exact absurd hquantifier h

/-- Leaving out what is not useful keeps an arrangement. -/
theorem filtered (h : Arrangement lo arrange) (useful : Nat → Bool) :
    Arrangement lo fun ends => (arrange ends).filter useful where
  mem ends e he := h.mem ends e (List.mem_filter.1 he).1
  filter p ends hends := by rw [h.filter p ends hends, List.filter_comm]

/-- **Candidates that bring nothing do not matter**: two lists of candidates give the same first
result when what brings one is a candidate in both. -/
theorem findSome?_eq {β : Type} (h : Arrangement lo arrange) {E E' : List Nat}
    (hE : Ascending lo E) (hE' : Ascending lo E') {f f' : Nat → Option β}
    (hsame : ∀ e ∈ E', f e = f' e) (hf : ∀ e ∈ E, (f e).isSome → e ∈ E')
    (hf' : ∀ e ∈ E', (f' e).isSome → e ∈ E) :
    (arrange E).findSome? f = (arrange E').findSome? f' := by
  have hcommon : E.filter (E'.contains ·) = E'.filter (E.contains ·) := by
    refine (hE.pairwise.filter _).eq_of_mem_iff (hE'.pairwise.filter _) fun e => ?_
    simp only [List.mem_filter, List.contains_iff_mem]
    exact and_comm
  calc (arrange E).findSome? f
    _ = ((arrange E).filter (E'.contains ·)).findSome? f :=
        (findSome?_filter_eq (fun _ _ => rfl) fun e he hs =>
          List.contains_iff_mem.2 (hf e (h.mem E e he) hs)).symm
    _ = ((arrange E').filter (E.contains ·)).findSome? f := by
        rw [← h.filter _ E hE, hcommon, h.filter _ E' hE']
    _ = (arrange E').findSome? f' :=
        findSome?_filter_eq (fun e he => hsame e (h.mem E' e he)) fun e he hs =>
          List.contains_iff_mem.2 (hf' e (h.mem E' e he) hs)

end Arrangement

/-! ### Grammars with the same rules -/

/-- The grammars have the same rules and read their leaves alike; their patterns may be written out to
different depths. -/
structure Grammar.Alike (g g' : Grammar) : Prop where
  rules : g'.rules = g.rules
  resolved : g'.resolved = g.resolved
  engine : g'.engine = g.engine
  leaf : g'.acceptors.leaf = g.acceptors.leaf

namespace Grammar.Alike

variable {g g' : Grammar} (h : g.Alike g')
include h

theorem symm : g'.Alike g := ⟨h.rules.symm, h.resolved.symm, h.engine.symm, h.leaf.symm⟩

theorem rule_eq : g'.rule = g.rule := by
  funext d
  rw [rule, rule, h.rules]

theorem resolve_eq : g'.resolve = g.resolve := by
  funext d
  rw [resolve, resolve, h.resolved]

theorem shape_eq : g'.shape = g.shape := by
  funext d
  rw [shape, shape, h.rule_eq, h.resolve_eq]

theorem size_eq : g'.size = g.size := by rw [size, size, h.rules]

theorem quantifier?_eq : g'.quantifier? = g.quantifier? := by
  funext d
  rw [quantifier?, quantifier?, h.shape_eq]

theorem leafMatches_eq : g'.leafMatches = g.leafMatches := by
  funext d text
  rw [leafMatches, leafMatches, h.leaf, h.resolve_eq]

theorem regular (hreg : g.Regular) : g'.Regular where
  lawful := h.engine ▸ hreg.lawful
  lookFree d source hrule := by
    rw [h.engine]
    exact hreg.lookFree d source (h.rule_eq ▸ hrule)

/-- The definitions have the same texts. -/
theorem derives {d : DefId} {w : Text} (hw : g.Derives d w) : g'.Derives d w := by
  refine Grammar.derives_least (L := g'.Derives) (fun e v hv => ?_) hw
  rw [Grammar.derives_iff, h.rule_eq, h.engine]
  exact hv

end Grammar.Alike

/-! ### The same parts -/

/-- The search that leaves no candidate out. -/
abbrev Grammar.query (g : Grammar) (text : Text) : Query := ⟨g, text, false⟩

namespace Grammar.Alike

variable {g g' : Grammar} {text : Text} {parse parse' : PlainParse}
  (h : g.Alike g') (hg : g.Valid) (hg' : g'.Valid) (hreg : g.Regular)
  (hquantifiers : g.NonPossessive) (hparse : (g.query text).FittingParts parse)
  (hparse' : (g'.query text).FittingParts parse')
  (hsame : (g.query text).SameParts parse parse')
include h hg hreg

/-- An end that brings a part is a candidate whatever the depth of the patterns is. -/
theorem mem_allEnds (hparse : (g.query text).FittingParts parse) (hg' : g'.Valid) {item : DefId}
    {cursor e stop : Nat} (hleft : IsRange text cursor e) (hright : IsRange text e stop)
    {part : Split} (hpart : parse item cursor e = some part) :
    e ∈ (g'.query text).allEnds item cursor stop := by
  obtain ⟨hspan, hfits⟩ := hparse item cursor e part hleft hpart
  have hholds : part.Holds text (slice text cursor e) := by
    rw [Split.Holds, hspan]
    exact hleft.slice?
  have hderives := h.derives (hfits.derives hg hholds)
  have hmem := Query.mem_allEnds (q := g'.query text) hg' (h.regular hreg)
    (slice?_join hleft.slice? hright.slice?) hderives
  rwa [← slice?_stop hleft.slice?] at hmem

include hg' hparse hparse' hsame

/-- The first candidate that brings a part and what follows it is the same. -/
theorem findSome?_allEnds {β : Type} {item : DefId} {cursor stop : Nat}
    (hrange : IsRange text cursor stop) {arrange : List Nat → List Nat}
    (harrange : Arrangement cursor arrange) {next next' : Nat → Split → Option β}
    (hnext : ∀ e, IsRange text cursor e → IsRange text e stop → next e = next' e) :
    (arrange ((g.query text).allEnds item cursor stop)).findSome?
        (fun e => (parse item cursor e).bind (next e)) =
      (arrange ((g'.query text).allEnds item cursor stop)).findSome?
        (fun e => (parse' item cursor e).bind (next' e)) := by
  refine harrange.findSome?_eq (Query.allEnds_ascending hg item cursor stop)
    (Query.allEnds_ascending hg' item cursor stop) (fun e he => ?_) (fun e he hs => ?_)
    fun e he hs => ?_
  · obtain ⟨hleft, hright⟩ := Query.isRange_of_mem_allEnds (q := g'.query text) hg' hrange he
    rw [hsame item cursor e hleft, hnext e hleft hright]
  · obtain ⟨hleft, hright⟩ := Query.isRange_of_mem_allEnds (q := g.query text) hg hrange he
    obtain ⟨_, hs⟩ := Option.isSome_iff_exists.1 hs
    obtain ⟨part, hpart, -⟩ := Option.bind_eq_some_iff.1 hs
    exact h.mem_allEnds hg hreg hparse hg' hleft hright hpart
  · obtain ⟨hleft, hright⟩ := Query.isRange_of_mem_allEnds (q := g'.query text) hg' hrange he
    obtain ⟨_, hs⟩ := Option.isSome_iff_exists.1 hs
    obtain ⟨part, hpart, -⟩ := Option.bind_eq_some_iff.1 hs
    exact h.symm.mem_allEnds hg' (h.regular hreg) hparse' hg hleft hright hpart

include hquantifiers

theorem plainSequence_eq {stop : Nat} {follows follows' : Array Filter}
    (hfollows : ∀ k, follows.getD k .everywhere = .everywhere)
    (hfollows' : ∀ k, follows'.getD k .everywhere = .everywhere) (items : List DefId) (k : Nat)
    {cursor : Nat} (hrange : IsRange text cursor stop) :
    (g.query text).plainSequence parse stop follows items k cursor =
      (g'.query text).plainSequence parse' stop follows' items k cursor := by
  induction items generalizing k cursor with
  | nil => rfl
  | cons item items ih =>
      have hquantifier : (g'.query text).quantifier item = (g.query text).quantifier item := by
        rw [Query.quantifier, Query.quantifier, h.quantifier?_eq]
      rw [Query.plainSequence, Query.plainSequence, hfollows, hfollows', Query.filter_everywhere,
        Query.filter_everywhere, Query.ends, Query.ends, hquantifier]
      refine h.findSome?_allEnds hg hg' hreg hparse hparse' hsame hrange
        (.order (Query.quantifier_ne_possessive (q := g.query text) hquantifiers item))
        fun e _ hright => ?_
      rw [ih (k + 1) hright]

omit h hg hg' hreg hquantifiers hparse hparse' in
theorem plainChoice_eq {start stop : Nat} (hrange : IsRange text start stop)
    {alternatives : List DefId} {index : Nat} :
    (g.query text).plainChoice parse start stop alternatives index =
      (g'.query text).plainChoice parse' start stop alternatives index := by
  induction alternatives generalizing index with
  | nil => rfl
  | cons a as ih =>
      rw [Query.plainChoice, Query.plainChoice, ih, hsame a start stop hrange]
      rfl

theorem plainExtend_eq {p : LoopPlan} (hitems : p.repetition.quantifier ≠ .possessive)
    (hfollows : ∀ trail, p.follows trail = .everywhere) (fuel : Nat) (trail : List Split)
    {cursor : Nat} (hrange : IsRange text cursor p.stop) :
    (g.query text).plainExtend parse p fuel trail cursor =
      (g'.query text).plainExtend parse' p fuel trail cursor := by
  induction fuel generalizing trail cursor with
  | zero => rfl
  | succ fuel ih =>
      rw [Query.plainExtend, Query.plainExtend]
      split
      · rfl
      split
      · rfl
      have hquantifier : (g'.query text).quantifier (p.element trail) =
          (g.query text).quantifier (p.element trail) := by
        rw [Query.quantifier, Query.quantifier, h.quantifier?_eq]
      have hnext : ∀ e, IsRange text cursor e → IsRange text e p.stop →
          (fun part => (g.query text).plainExtend parse p fuel (part :: trail) e) =
            fun part => (g'.query text).plainExtend parse' p fuel (part :: trail) e :=
        fun e _ hright => funext fun part => ih (part :: trail) hright
      simp only [Query.loopEnds, hfollows, Query.filter_everywhere]
      split
      · rw [Query.ends, Query.ends, hquantifier]
        exact h.findSome?_allEnds hg hg' hreg hparse hparse' hsame hrange
          ((Arrangement.order (Query.quantifier_ne_possessive (q := g.query text) hquantifiers
            (p.element trail))).filtered _) hnext
      · exact h.findSome?_allEnds hg hg' hreg hparse hparse' hsame hrange
          ((Arrangement.itemOrder hitems).filtered _) hnext

omit h hg hg' hreg hquantifiers hparse hparse' hsame in
/-- Without pruning, what is repeated does not depend on the grammar. -/
theorem loopPlan_eq (d item : DefId) (separator : Option DefId) (r : Repetition)
    (start stop : Nat) :
    (g'.query text).loopPlan d item separator r start stop =
      (g.query text).loopPlan d item separator r start stop := by
  simp only [Query.loopPlan, Query.follows_unpruned (q := g.query text) rfl,
    Query.follows_unpruned (q := g'.query text) rfl]

theorem plainLoop_eq {d item : DefId} {separator : Option DefId} {r : Repetition}
    (hitems : r.quantifier ≠ .possessive) {fuel start stop : Nat}
    (hrange : IsRange text start stop) :
    (g.query text).plainLoop parse ((g.query text).loopPlan d item separator r start stop) fuel =
      (g'.query text).plainLoop parse' ((g'.query text).loopPlan d item separator r start stop)
        fuel := by
  rw [loopPlan_eq (g := g)]
  have helements := h.plainExtend_eq hg hg' hreg hquantifiers hparse hparse' hsame
    (p := (g.query text).loopPlan d item separator r start stop) hitems
    (Query.loopFollows_unpruned (q := g.query text) rfl d item separator r start stop) fuel []
    hrange
  exact congrArg _ helements

/-- When the parts are found alike, so is the whole. -/
theorem plainShape_eq {fuel : Nat} {d : DefId} {start stop : Nat}
    (hrange : IsRange text start stop) :
    (g.query text).plainShape parse fuel d start stop =
      (g'.query text).plainShape parse' fuel d start stop := by
  have hquantifier : ∀ quantifier, (g.shape d).quantifier? = some quantifier →
      quantifier ≠ .possessive := by
    rintro _ hd rfl
    exact hquantifiers (g.resolve d) hd
  rw [Query.plainShape, Query.plainShape, h.shape_eq]
  cases hshape : g.shape d with
  | literal text => rfl
  | pattern source => rw [h.leafMatches_eq]; rfl
  | empty => rfl
  | sequence items =>
      have hparts := h.plainSequence_eq hg hg' hreg hquantifiers hparse hparse' hsame
        (Query.sequenceFollows_unpruned (q := g.query text) rfl d items.length start stop)
        (Query.sequenceFollows_unpruned (q := g'.query text) rfl d items.length start stop)
        items 0 hrange
      exact congrArg (Option.map (Split.sequence ⟨start, stop⟩)) hparts
  | choice alternatives => exact plainChoice_eq hsame hrange
  | optional item quantifier =>
      dsimp only
      rw [hsame item start stop hrange]
  | loop item r =>
      exact h.plainLoop_eq hg hg' hreg hquantifiers hparse hparse' hsame
        (hquantifier _ (by rw [hshape]; rfl)) hrange
  | separated item separator default r =>
      exact h.plainLoop_eq hg hg' hreg hquantifiers hparse hparse' hsame
        (hquantifier _ (by rw [hshape]; rfl)) hrange
  | «alias» target name => rfl
  | forward target => rfl
  | withDefault content target => rfl

omit hparse hparse' hsame in
/-- **Grammars with the same rules find the same parts.** -/
theorem plain_same (fuel : Nat) (active : List Part) :
    (g.query text).SameParts ((g.query text).plain fuel active)
      ((g'.query text).plain fuel active) := by
  induction fuel generalizing active with
  | zero => exact fun _ _ _ _ => rfl
  | succ fuel ih =>
      intro d start stop hrange
      rw [Query.plain, Query.plain, h.resolve_eq]
      rw [h.plainShape_eq hg hg' hreg hquantifiers (Query.plain_fits (q := g.query text) hg fuel _)
        (Query.plain_fits (q := g'.query text) hg' fuel _) (ih _) hrange]

end Grammar.Alike

/-! ### Whole texts -/

/-- The splits of a text are those that the search without pruning finds. -/
theorem resolve_ok_iff_run {g : Grammar} (hg : g.Valid) (hreg : g.Regular)
    (hlimit : g.limits.recursionLimit = none) {d : DefId} (hd : d < g.size) {text : Text}
    {split : Split} : (resolve g d text).result = .ok split ↔
      ((g.query text).run d).1 = .ok split := by
  have hrun : ∀ {s}, (resolve g d text).result = .ok s → ((g.query text).run d).1 = .ok s := by
    intro s h
    obtain ⟨prune, hs⟩ := resolve_ok h
    rwa [Query.run_exhaustive (q := ⟨g, text, prune⟩) hg hreg hlimit hd] at hs
  refine ⟨hrun, fun h => ?_⟩
  obtain ⟨s, hs⟩ := (resolve_ok_iff hg hlimit hd text).2 ⟨split, h⟩
  rwa [Except.ok.inj (h.symm.trans (hrun hs))]

/-- The splits of a text are those that plain backtracking finds. -/
theorem resolve_ok_iff_backtrackRun {g : Grammar} (hg : g.Valid) (hreg : g.Regular)
    (hlimit : g.limits.recursionLimit = none) {d : DefId} (hd : d < g.size) {text : Text}
    {split : Split} : (resolve g d text).result = .ok split ↔
      (g.query text).backtrackRun d = .ok split := by
  rw [resolve_ok_iff_run hg hreg hlimit hd, Query.run_eq_backtrackRun (q := g.query text) hg hlimit hd]

/-- A text that has no split is rejected when the nesting is not limited. -/
theorem resolve_ok_or_rejected {g : Grammar} (hg : g.Valid)
    (hlimit : g.limits.recursionLimit = none) {d : DefId} (hd : d < g.size) (text : Text) :
    (∃ split, (resolve g d text).result = .ok split) ∨
      ∃ r, (resolve g d text).result = .error (.rejected r) := by
  -- the search is not stopped for any other reason
  have hstopped : ∀ prune err, (Query.run ⟨g, text, prune⟩ d).1 = .error err → err = .rejected := by
    intro prune err hr
    have hrun := Query.run_ok_or_rejected (q := ⟨g, text, prune⟩) hg hlimit hd
    simpa [hr] using hrun
  have hfully : ∀ before, (∃ split, (resolveFully g d text before).result = .ok split) ∨
      ∃ r, (resolveFully g d text before).result = .error (.rejected r) := by
    intro before
    rw [resolveFully]
    split
    · exact .inl ⟨_, rfl⟩
    · exact .inr ⟨_, rfl⟩
    · next hne hr => exact absurd (hstopped false _ (congrArg Prod.fst hr)) hne
  rw [resolve]
  split
  · split
    · exact .inl ⟨_, rfl⟩
    · exact hfully _
    · next hne hr => exact absurd (hstopped true _ (congrArg Prod.fst hr)) hne
  · exact hfully _

/-- The same draft with patterns of another depth. -/
def Draft.withDepth (draft : Draft) (depth : Nat) : Draft :=
  { draft with limits := { draft.limits with patternDepth := depth } }

/-- Two grammars of one table of rules differ in nothing but names, limits and patterns. -/
theorem Grammar.ofRules_alike {engine : Engine} {rules : Array Rule} {names names' : NameTable}
    {limits limits' : Limits} {g g' : Grammar}
    (h : Grammar.ofRules engine rules names limits = .ok g)
    (h' : Grammar.ofRules engine rules names' limits' = .ok g') :
    g.Alike g' ∧ g.limits = limits ∧ g'.limits = limits' := by
  obtain ⟨-, -, h⟩ := Except.bind_eq_ok.1 h
  obtain ⟨leaves, hleaves, h⟩ := Except.bind_eq_ok.1 h
  obtain ⟨resolved, hresolved, h⟩ := Except.bind_eq_ok.1 h
  obtain ⟨-, -, h⟩ := Except.bind_eq_ok.1 h
  obtain ⟨-, -, h⟩ := Except.bind_eq_ok.1 h
  obtain ⟨-, -, h'⟩ := Except.bind_eq_ok.1 h'
  obtain ⟨leaves', hleaves', h'⟩ := Except.bind_eq_ok.1 h'
  obtain ⟨resolved', hresolved', h'⟩ := Except.bind_eq_ok.1 h'
  obtain ⟨-, -, h'⟩ := Except.bind_eq_ok.1 h'
  obtain ⟨-, -, h'⟩ := Except.bind_eq_ok.1 h'
  obtain rfl := Except.ok.inj (hleaves.symm.trans hleaves')
  obtain rfl := Except.ok.inj (hresolved.symm.trans hresolved')
  obtain rfl := Except.ok.inj h
  obtain rfl := Except.ok.inj h'
  exact ⟨⟨rfl, rfl, rfl, rfl⟩, rfl, rfl⟩

/-- Two grammars of one draft with patterns of different depths have the same rules. -/
theorem Draft.build_alike {draft : Draft} {depth : Nat} {g g' : Grammar}
    (h : draft.build = .ok g) (h' : (draft.withDepth depth).build = .ok g') :
    g.Alike g' ∧ g'.limits.recursionLimit = g.limits.recursionLimit := by
  obtain ⟨rules, hrules, h⟩ := Except.bind_eq_ok.1 h
  obtain ⟨rules', hrules', h'⟩ := Except.bind_eq_ok.1 h'
  obtain rfl := Except.ok.inj (hrules.symm.trans hrules')
  obtain ⟨halike, hlimits, hlimits'⟩ := Grammar.ofRules_alike h h'
  exact ⟨halike, by rw [hlimits, hlimits']; rfl⟩

/-- **The depth of patterns does not decide about splits.**  When the engine keeps its laws, no
repetition is possessive, no pattern has a condition on a position and the nesting of the search is not
limited, two grammars of one draft whose patterns are written out to different depths accept the same
texts with the same splits. -/
theorem resolve_withDepth {draft : Draft} {depth : Nat} {g g' : Grammar}
    (hbuild : draft.build = .ok g) (hbuild' : (draft.withDepth depth).build = .ok g')
    (hlawful : g.engine.Lawful) (hquantifiers : g.NonPossessive)
    (hlimit : g.limits.recursionLimit = none) (hfree : g.LookFree) {d : DefId} (hd : d < g.size)
    (text : Text) :
    (∃ split, (resolve g d text).result = .ok split ∧ (resolve g' d text).result = .ok split) ∨
      ∃ r r', (resolve g d text).result = .error (.rejected r) ∧
        (resolve g' d text).result = .error (.rejected r') := by
  have hg := Draft.build_valid hbuild
  have hg' := Draft.build_valid hbuild'
  obtain ⟨halike, hlimits⟩ := Draft.build_alike hbuild hbuild'
  have hlimit' : g'.limits.recursionLimit = none := hlimits.trans hlimit
  have hd' : d < g'.size := by rwa [halike.size_eq]
  have hsame : (fun fuel => (g.query text).plain fuel [] d 0 (byteLength text)) =
      fun fuel => (g'.query text).plain fuel [] d 0 (byteLength text) :=
    funext fun fuel => halike.plain_same hg hg' ⟨hlawful, hfree⟩ hquantifiers fuel [] d 0 _
      (IsRange.whole text)
  have hrun : ((g.query text).run d).1 = ((g'.query text).run d).1 := by
    have hdescribes := Query.run_describes (q := g.query text) hg hlimit hd
    have hdescribes' := Query.run_describes (q := g'.query text) hg' hlimit' hd'
    rw [hsame] at hdescribes
    exact hdescribes.unique hdescribes'
  have hiff : ∀ split, (resolve g d text).result = .ok split ↔
      (resolve g' d text).result = .ok split := fun split => by
    rw [resolve_ok_iff_run hg ⟨hlawful, hfree⟩ hlimit hd,
      resolve_ok_iff_run hg' (halike.regular ⟨hlawful, hfree⟩) hlimit' hd', hrun]
  rcases resolve_ok_or_rejected hg hlimit hd text with ⟨split, h⟩ | ⟨r, h⟩
  · exact .inl ⟨split, h, (hiff split).1 h⟩
  · refine .inr ⟨r, ?_⟩
    rcases resolve_ok_or_rejected hg' hlimit' hd' text with ⟨split, h'⟩ | ⟨r', h'⟩
    · cases h.symm.trans ((hiff split).2 h')
    · exact ⟨r', h, h'⟩

/-- The grammar of the rows with patterns that are cut off at the second entry. -/
def shallowRowGrammar : Grammar :=
  { rowGrammar with
    limits := { patternDepth := 1 }
    acceptors := Acceptors.ofRules .standard rowRules { patternDepth := 1 }
      #[none, Engine.standard.whole? ['a'], none, none] }

/-- A row of two letters has the same split when its pattern is cut off early. -/
theorem resolve_withDepth_row :
    (rowDraft.withDepth 1).build = .ok shallowRowGrammar ∧
      (resolve shallowRowGrammar 0 ['a', 'a']).result = .ok rowSplit := by
  have hbuild : (rowDraft.withDepth 1).build = .ok shallowRowGrammar := by with_unfolding_all rfl
  have hresult := resolve_of_run rowGrammar_feasible run_row
  rcases resolve_withDepth rowDraft_build hbuild Engine.standard_lawful rowGrammar_nonPossessive rfl
    rowGrammar_lookFree (d := 0) (by decide) ['a', 'a'] with ⟨split, h, h'⟩ | ⟨r, r', h, -⟩
  · rw [Except.ok.inj (hresult.symm.trans h)]
    exact ⟨hbuild, h'⟩
  · cases hresult.symm.trans h

/-! ### Possessive brackets -/

/-- Brackets in brackets.  Definition 2 refers to the brackets inside, which are optional and
possessive; definition 5 asks for one more closing bracket after brackets. -/
def bracketRules : Array Rule :=
  #[.literal ['('], .literal [')'], .forward 4, .sequence [0, 2, 1], .optional 3 .possessive,
    .sequence [2, 1]]

/-- The draft of the brackets. -/
def bracketDraft (depth : Nat) : Draft :=
  ⟨bracketRules.map some, .empty, { patternDepth := depth }, .standard⟩

/-- The grammar of the brackets. -/
def bracketGrammar (depth : Nat) : Grammar where
  rules := bracketRules
  resolved := #[0, 1, 4, 3, 4, 5]
  names := .empty
  limits := { patternDepth := depth }
  engine := .standard
  acceptors := Acceptors.ofRules .standard bracketRules { patternDepth := depth }
    #[none, none, none, none, none, none]

theorem bracketDraft_build (depth : Nat) :
    (bracketDraft depth).build = .ok (bracketGrammar depth) := by
  with_unfolding_all rfl

/-- No bracket is a pattern. -/
theorem bracketGrammar_lookFree (depth : Nat) : (bracketGrammar depth).LookFree :=
  Grammar.lookFree_of_rules (by simp [bracketGrammar, bracketRules])

/-- The brackets, and the closing bracket after them. -/
def bracketSplit : Split :=
  .sequence ⟨0, 3⟩ [.present ⟨0, 2⟩ (.sequence ⟨0, 2⟩ [.leaf ⟨0, 1⟩, .absent ⟨1, 1⟩, .leaf ⟨1, 2⟩]),
    .leaf ⟨2, 3⟩]

set_option maxRecDepth 10000 in
theorem backtrackRun_bracket :
    ((bracketGrammar 2).query ['(', ')', ')']).backtrackRun 5 = .ok bracketSplit := by
  with_unfolding_all rfl

set_option maxRecDepth 10000 in
/-- The pattern of the brackets, cut off after one entry, matches the last bracket, too. -/
theorem backtrackRun_bracket_shallow :
    ((bracketGrammar 1).query ['(', ')', ')']).backtrackRun 5 = .error .rejected := by
  with_unfolding_all rfl

/-- **A possessive repetition gives its depth away**: after possessive brackets a closing bracket is
found when their pattern is written out to the second entry, and not when it is cut off at the first. -/
theorem resolve_withDepth_possessive :
    (bracketDraft 2).build = .ok (bracketGrammar 2) ∧
      ((bracketDraft 2).withDepth 1).build = .ok (bracketGrammar 1) ∧
      (bracketGrammar 2).limits.recursionLimit = none ∧ (bracketGrammar 2).LookFree ∧
      (resolve (bracketGrammar 2) 5 ['(', ')', ')']).result = .ok bracketSplit ∧
      ∀ split, (resolve (bracketGrammar 1) 5 ['(', ')', ')']).result ≠ .ok split := by
  have hiff : ∀ depth split,
      (resolve (bracketGrammar depth) 5 ['(', ')', ')']).result = .ok split ↔
        ((bracketGrammar depth).query ['(', ')', ')']).backtrackRun 5 = .ok split := by
    intro depth split
    have hreg : (bracketGrammar depth).Regular :=
      ⟨Engine.standard_lawful, bracketGrammar_lookFree depth⟩
    exact resolve_ok_iff_backtrackRun (Draft.build_valid (bracketDraft_build depth)) hreg rfl
      (show 5 < bracketRules.size by decide)
  refine ⟨bracketDraft_build 2, bracketDraft_build 1, rfl, bracketGrammar_lookFree 2,
    (hiff 2 _).2 backtrackRun_bracket, fun split h => ?_⟩
  have hshallow := (hiff 1 split).1 h
  rw [backtrackRun_bracket_shallow] at hshallow
  cases hshallow

end Tessera
