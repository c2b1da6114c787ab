/-
**Creating a node ends.**

A node of a sequence comes with nodes of its items, and these with nodes of theirs.  In a finished
grammar no definition creates a node of itself on the way, so the nesting is bounded by the number of
definitions, and the bound that new nodes are made with is never reached: a larger one gives the same
nodes.  A table of rules in which some definition would create nodes for ever is not accepted.

Main definitions:

* `Tessera.CreatesIn`, `Tessera.Grammar.Creates` — a node of a definition comes with one of another;
* `Tessera.CreatesForever` — creating a node of some definition would never end;
* `Tessera.ExactChains`, `Tessera.ExactCycles` — what the two checks of the structure decide;
* `Tessera.Grammar.CreationEnds` — creating a node ends, whatever it is filled with.

Main results:

* `Tessera.Tree.allocWith_fuel` — **more nesting than any grammar has changes nothing**;
* `Tessera.exactChains`, `Tessera.exactCycles` — both checks are exact;
* `Tessera.structure_exact` — **the checks of the structure reject what they must, and nothing else**.
-/

import Mathlib.Order.WellFounded
import Tessera.Proofs.Grammar.Cycles
import Tessera.Proofs.Tree.Definitions

set_option autoImplicit false

namespace Tessera

variable {g : Grammar} {rule : DefId → Rule} {d e : DefId}

/-! ### What comes with a node -/

/-- In a table of rules, a node of the first definition comes with one of the second: behind the first
is a sequence that has the second as an item. -/
def CreatesIn (rule : DefId → Rule) (d e : DefId) : Prop :=
  ∃ s items, LeadsTo rule d s ∧ rule s = .sequence items ∧ e ∈ items

/-- Creating a node of some definition would never end: the search for the rule behind it does not, or
each new node asks for another one. -/
def CreatesForever (rule : DefId → Rule) (size : Nat) : Prop :=
  (∃ d < size, Endless rule d) ∨ ∃ f : Nat → DefId, ∀ n, CreatesIn rule (f n) (f (n + 1))

/-- A node of the first definition comes with one of the second. -/
def Grammar.Creates (g : Grammar) (d e : DefId) : Prop :=
  ∃ items, g.shape d = .sequence items ∧ e ∈ items

/-- What a definition creates, it needs. -/
theorem CreatesIn.needs (h : CreatesIn rule d e) : Relation.TransGen (Needs rule) d e := by
  obtain ⟨s, items, hlead, hrule, he⟩ := h
  have hneeds : Relation.ReflTransGen (Needs rule) d s :=
    Relation.ReflTransGen.mono (fun _ _ => Needs.target) _ _ hlead
  exact .tail' hneeds (.item hrule he)

/-- Creation that goes on for ever needs ranks that fall for ever. -/
theorem not_creates_forever {rank : DefId → Nat} (hrank : ∀ d e, Needs rule d e → rank e < rank d)
    (f : Nat → DefId) : ¬ ∀ n, CreatesIn rule (f n) (f (n + 1)) := by
  intro hf
  have hsum : ∀ n, rank (f n) + n ≤ rank (f 0) := by
    intro n
    induction n with
    | zero => exact Nat.le_refl _
    | succ n ih =>
        have := rank_lt_of_needs hrank (hf n).needs
        omega
  have := hsum (rank (f 0) + 1)
  omega

/-- Below every definition creation comes to an end. -/
theorem Grammar.Valid.creates_wellFounded (hg : g.Valid) (hranked : g.Ranked) :
    WellFounded fun e d => g.Creates d e := by
  obtain ⟨rank, -, hrank⟩ := hranked
  refine Subrelation.wf (r := InvImage (· < ·) rank) ?_ (InvImage.wf rank Nat.lt_wfRel.wf)
  rintro e d ⟨items, hshape, he⟩
  exact Grammar.Ranked.item_lt hg hrank hshape he

/-! ### Enough nesting -/

namespace Tree

/-- Filling a node keeps the definitions of the tree in the grammar. -/
def KeepsDefined (g : Grammar) (fill : DefId → NodeId → Tree → Tree) : Prop :=
  ∀ d id (t : Tree), t.Defined g → (fill d id t).Defined g

variable {fill : DefId → NodeId → Tree → Tree} {t : Tree}

/-- Two ways to make single nodes make the same rows of nodes. -/
theorem allocEach_congr {alloc alloc' : DefId → Tree → NodeId × Tree} {ds : List DefId}
    (hkeeps : ∀ d ∈ ds, ∀ t : Tree, t.Defined g → (alloc d t).2.Defined g)
    (h : ∀ d ∈ ds, ∀ t : Tree, t.Defined g → alloc' d t = alloc d t) (ht : t.Defined g) :
    allocEach alloc' ds t = allocEach alloc ds t := by
  induction ds generalizing t with
  | nil => rfl
  | cons d ds ih =>
      rw [allocEach, allocEach, h d List.mem_cons_self t ht]
      dsimp only
      rw [ih (fun d hd => hkeeps d (List.mem_cons_of_mem _ hd))
        (fun d hd => h d (List.mem_cons_of_mem _ hd)) (hkeeps d List.mem_cons_self t ht)]

/-- **More nesting than any grammar has changes nothing.** -/
theorem allocWith_fuel (hg : g.Valid) {rank : DefId → Nat}
    (hrank : ∀ d, ∀ e ∈ (g.rule d).eager, rank e < rank d) (hfill : KeepsDefined g fill)
    {fuel fuel' : Nat} (hd : d < g.size) (hfuel : rank d < fuel) (hle : fuel ≤ fuel')
    (parent : Option NodeId) (ht : t.Defined g) :
    allocWith fill fuel' parent d t = allocWith fill fuel parent d t := by
  induction fuel generalizing fuel' d parent t with
  | zero => omega
  | succ fuel ih =>
      obtain ⟨fuel', rfl⟩ : ∃ n, fuel' = n + 1 := ⟨fuel' - 1, by omega⟩
      have hoccupy := ht.occupy (m := t.freshNode d parent) hd
      rw [allocWith, allocWith]
      dsimp only
      rw [hoccupy.grammar]
      cases hshape : g.shape d with
      | sequence items =>
          have hlt : ∀ e ∈ items, e < g.size := fun e he =>
            hg.references_shape (d := d) (by rw [hshape]; exact he)
          have hitems : ∀ e ∈ items, ∀ s : Tree, s.Defined g →
              allocWith fill fuel' (some (t.occupy (t.freshNode d parent)).1) e s =
                allocWith fill fuel (some (t.occupy (t.freshNode d parent)).1) e s := by
            intro e he s hs
            have := Grammar.Ranked.item_lt hg hrank hshape he
            exact ih (hlt e he) (by omega) (by omega) _ hs
          dsimp only
          rw [allocEach_congr (fun e he s hs => hs.allocWith hg hfill fuel (hlt e he) _) hitems hoccupy]
      | _ => rfl

end Tree

/-- Creating a node ends: below every definition the definitions that are created come to an end, and
the bound on their nesting could be larger without a difference, whether nodes stay without a content
or are filled with their defaults. -/
structure Grammar.CreationEnds (g : Grammar) : Prop where
  creates : WellFounded fun e d => g.Creates d e
  alloc : ∀ (t : Tree) (d : DefId), t.Defined g → d < g.size → ∀ fuel ≥ t.allocFuel,
    ∀ parent : NodeId, Tree.allocWith (fun _ _ t => t) fuel (some parent) d t = t.alloc parent d
  allocFilled : ∀ (t : Tree) (d : DefId), t.Defined g → d < g.size → ∀ fuel ≥ t.allocFuel,
    ∀ parent : Option NodeId,
      Tree.allocWith Tree.fillDefault fuel parent d t = t.allocFilled parent d

/-- **In every finished grammar creating a node ends.** -/
theorem Grammar.Valid.creationEnds (hg : g.Valid) (hranked : g.Ranked) : g.CreationEnds := by
  obtain ⟨rank, hle, hrank⟩ := id hranked
  have hfuel : ∀ (t : Tree) (d : DefId), t.Defined g → rank d < t.allocFuel := by
    intro t d ht
    have := hle d
    rw [Tree.allocFuel, ht.grammar]
    omega
  refine ⟨hg.creates_wellFounded hranked, fun t d ht hd fuel hf parent => ?_,
    fun t d ht hd fuel hf parent => ?_⟩
  · exact Tree.allocWith_fuel hg hrank (fun _ _ _ hs => hs) hd (hfuel t d ht) hf _ ht
  · exact Tree.allocWith_fuel hg hrank (fun d id _ hs => hs.fillDefault hg d id) hd (hfuel t d ht) hf
      _ ht

/-! ### What the checks of the structure decide -/

/-- Behind every definition of a grammar is one that stands only for itself, and the walk along its
chain gets there, without meeting a definition twice and however many more steps it may take. -/
structure Grammar.ChainsEnd (g : Grammar) : Prop where
  idempotent : ∀ d, g.resolve (g.resolve d) = g.resolve d
  structural : ∀ d, (g.shape d).isIndirect = false
  walk : ∀ d < g.size, ChainWalk g.rule d (g.resolve d) (g.chain d)
  steps : ∀ d < g.size, ∀ fuel ≥ g.size, Grammar.chainFrom g.rule fuel d = g.chain d

/-- The check for chains is exact: it reports the first definition from which no rule of another kind
is reached, and otherwise finds for every definition the one at the end of its chain. -/
structure ExactChains (rules : Array Rule) : Prop where
  fails_iff : (∃ fault, resolveChains rules = .error fault) ↔
    ∃ d < rules.size, Endless (ruleOf rules) d
  first : ∀ fault, resolveChains rules = .error fault →
    ∃ d < rules.size, fault = .unresolvableReference d ∧ Endless (ruleOf rules) d ∧
      ∀ d' < d, ¬ Endless (ruleOf rules) d'
  finds : ∀ resolved, resolveChains rules = .ok resolved → resolved.length = rules.size ∧
    ∀ d < rules.size, ∃ e < rules.size, resolved[d]? = some e ∧ LeadsTo (ruleOf rules) d e ∧
      (ruleOf rules e).isIndirect = false
  grammar : ∀ (g : Grammar) (resolved : List DefId), resolveChains rules = .ok resolved →
    g.rules = rules → g.resolved = resolved.toArray → g.ChainsEnd

/-- The check for cycles is exact: it fails when some definition needs itself, and what it reports are
different definitions of which each needs the next, and the last the first. -/
structure ExactCycles (rules : Array Rule) : Prop where
  fails_iff : (∃ fault, checkEagerCycles rules = .error fault) ↔ NeedsItself (ruleOf rules)
  cycle : ∀ fault, checkEagerCycles rules = .error fault →
    ∃ cycle, fault = .infiniteRecursion cycle ∧ EagerCycle (ruleOf rules) cycle

variable {rules : Array Rule}

/-- **In a grammar with the chains that the check finds, all chains end.** -/
theorem chainsEnd_of_resolveChains (hclosed : Closed (ruleOf rules) rules.size)
    {resolved : List DefId} (h : resolveChains rules = .ok resolved) (hrules : g.rules = rules)
    (hresolved : g.resolved = resolved.toArray) : g.ChainsEnd := by
  obtain rfl := hrules
  have hresolve : ∀ d, g.resolve d = resolved.toArray.getD d d := fun d => by
    rw [Grammar.resolve, hresolved]
  have hout : ∀ d, ¬ d < g.size → g.resolve d = d ∧ (g.rule d).target? = none := by
    intro d hd
    refine ⟨(hresolve d).trans ((resolveChains_eq_ok h d).2 hd), ?_⟩
    have hempty : g.rule d = .empty := dif_neg hd
    rw [hempty]
    rfl
  have hin : ∀ d < g.size, LeadsTo g.rule d (g.resolve d) ∧ (g.rule (g.resolve d)).target? = none := by
    intro d hd
    obtain ⟨e, -, he, hlead, hend⟩ := resolveChains_leads hclosed h hd
    obtain rfl : g.resolve d = e := by
      rw [hresolve]
      simp [Array.getD_eq_getD_getElem?, he]
    exact ⟨hlead, hend⟩
  have hstructural : ∀ d, (g.rule (g.resolve d)).target? = none := by
    intro d
    by_cases hd : d < g.size
    · exact (hin d hd).2
    · rw [(hout d hd).1]
      exact (hout d hd).2
  refine ⟨fun d => ?_, fun d => ?_, fun d hd => ?_, fun d hd fuel hfuel => ?_⟩
  · by_cases hd : g.resolve d < g.size
    · exact (hin _ hd).1.eq_of_structural (hstructural d)
    · exact (hout _ hd).1
  · rw [Grammar.shape, Rule.isIndirect, hstructural d]
    rfl
  · exact chainWalk_of_leads hclosed hd (hin d hd).1 (hin d hd).2 (Nat.le_refl _)
  · exact chainFrom_eq hclosed hd (hin d hd).1 (hin d hd).2 hfuel

/-- **The check for chains is exact.** -/
theorem exactChains (hclosed : Closed (ruleOf rules) rules.size) : ExactChains rules where
  fails_iff := resolveChains_error_iff hclosed
  first _ h := resolveChains_error_first hclosed h
  finds resolved h := by
    refine ⟨by rw [(mapM_eq_ok h).1, List.length_range], fun d hd => ?_⟩
    obtain ⟨e, he, hget, hlead, hend⟩ := resolveChains_leads hclosed h hd
    exact ⟨e, he, hget, hlead, by rw [Rule.isIndirect, hend]; rfl⟩
  grammar _ _ h hrules hresolved := chainsEnd_of_resolveChains hclosed h hrules hresolved

/-- **The check for cycles is exact.** -/
theorem exactCycles (hclosed : Closed (ruleOf rules) rules.size) : ExactCycles rules where
  fails_iff := checkEagerCycles_error_iff hclosed
  cycle _ h := checkEagerCycles_error_cycle h

theorem boundRules_map_some (d : DefId) (rules : List Rule) :
    Draft.boundRules d (rules.map some) = .ok rules := by
  induction rules generalizing d with
  | nil => rfl
  | cons rule rules ih =>
      rw [List.map_cons, Draft.boundRules, ih]
      rfl

/-- A draft in which all definitions are bound is finished by checking its table. -/
theorem Draft.build_map_some (rules : Array Rule) (names : NameTable) (limits : Limits)
    (engine : Engine) : Draft.build ⟨rules.map some, names, limits, engine⟩ =
      Grammar.ofRules engine rules names limits := by
  rw [Draft.build, Array.toList_map, boundRules_map_some]
  exact congrArg (fun rules => Grammar.ofRules engine rules names limits) rules.toArray_toList

/-- The rules of a table that is accepted are those of the grammar. -/
theorem Grammar.rules_ofRules {names : NameTable} {limits : Limits} {engine : Engine}
    (h : Grammar.ofRules engine rules names limits = .ok g) : g.rules = rules := by
  obtain ⟨⟨⟩, -, h⟩ := Except.bind_eq_ok.1 h
  obtain ⟨leaves, -, h⟩ := Except.bind_eq_ok.1 h
  obtain ⟨resolved, -, h⟩ := Except.bind_eq_ok.1 h
  obtain ⟨⟨⟩, -, h⟩ := Except.bind_eq_ok.1 h
  obtain ⟨⟨⟩, -, h⟩ := Except.bind_eq_ok.1 h
  rw [← Except.ok.inj h]

/-- In a table that is accepted, creating a node of any definition ends. -/
theorem not_createsForever (hvalid : g.Valid) (hranked : g.Ranked) :
    ¬ CreatesForever g.rule g.size := by
  rintro (⟨d, hd, hendless⟩ | ⟨f, hf⟩)
  · obtain ⟨fuel, hend⟩ := hvalid.chainEnd d
    exact not_endless_iff.2 ⟨fuel, _, hend⟩ hendless
  · obtain ⟨rank, -, hrank⟩ := hranked
    exact not_creates_forever (fun d e h => hrank d e (needs_iff.1 h)) f hf

/-- **The checks of the structure reject what they must, and nothing else.** -/
theorem structure_exact (rules : Array Rule) (hclosed : Closed (ruleOf rules) rules.size) :
    ExactChains rules ∧ ExactCycles rules ∧
    (∀ (names : NameTable) (limits : Limits) (engine : Engine) (g : Grammar),
      Draft.build ⟨rules.map some, names, limits, engine⟩ = .ok g →
        g.rules = rules ∧ g.ChainsEnd ∧ g.CreationEnds) ∧
    (CreatesForever (ruleOf rules) rules.size →
      ∀ (names : NameTable) (limits : Limits) (engine : Engine),
        ∃ fault, Draft.build ⟨rules.map some, names, limits, engine⟩ = .error fault) := by
  refine ⟨exactChains hclosed, exactCycles hclosed, fun names limits engine g hbuild => ?_,
    fun hforever names limits engine => ?_⟩
  · have hvalid := Draft.build_valid hbuild
    have hranked := Draft.build_ranked hbuild
    rw [Draft.build_map_some] at hbuild
    refine ⟨Grammar.rules_ofRules hbuild, ?_, hvalid.creationEnds hranked⟩
    obtain ⟨⟨⟩, -, h⟩ := Except.bind_eq_ok.1 hbuild
    obtain ⟨leaves, -, h⟩ := Except.bind_eq_ok.1 h
    obtain ⟨resolved, hresolved, h⟩ := Except.bind_eq_ok.1 h
    obtain ⟨⟨⟩, -, h⟩ := Except.bind_eq_ok.1 h
    obtain ⟨⟨⟩, -, h⟩ := Except.bind_eq_ok.1 h
    exact chainsEnd_of_resolveChains hclosed hresolved (by rw [← Except.ok.inj h])
      (by rw [← Except.ok.inj h])
  · cases hbuild : Draft.build ⟨rules.map some, names, limits, engine⟩ with
    | error fault => exact ⟨fault, rfl⟩
    | ok g =>
        have hrules : g.rules = rules :=
          Grammar.rules_ofRules (Draft.build_map_some rules names limits engine ▸ hbuild)
        subst hrules
        exact absurd hforever
          (not_createsForever (Draft.build_valid hbuild) (Draft.build_ranked hbuild))

/-- A sequence of a letter and, under another number, the sequence itself. -/
def nestedRules : Array Rule := #[.sequence [1, 2], .literal ['a'], .alias 0 none]

/-- The rows of letters are accepted although a row contains a row, because the choice between them
makes none; the sequence that contains itself is refused with the cycle. -/
theorem structure_exact_rows :
    Closed (ruleOf rowRules) rowRules.size ∧ rowGrammar.ChainsEnd ∧ rowGrammar.CreationEnds ∧
      Closed (ruleOf nestedRules) nestedRules.size ∧
      CreatesForever (ruleOf nestedRules) nestedRules.size ∧
      EagerCycle (ruleOf nestedRules) [0, 2] ∧
      ∃ fault, Draft.build ⟨nestedRules.map some, .empty, {}, .standard⟩ = .error fault := by
  have hrows : Closed (ruleOf rowRules) rowRules.size := closed_ruleOf (by decide)
  have hnested : Closed (ruleOf nestedRules) nestedRules.size := closed_ruleOf (by decide)
  obtain ⟨-, -, haccepted, -⟩ := structure_exact rowRules hrows
  obtain ⟨-, hcycles, -, hrefused⟩ := structure_exact nestedRules hnested
  obtain ⟨-, hchains, hcreation⟩ := haccepted .empty {} .standard rowGrammar rowDraft_build
  have hforever : CreatesForever (ruleOf nestedRules) nestedRules.size :=
    .inr ⟨fun _ => 2, fun _ => ⟨0, [1, 2], .single rfl, rfl, by simp⟩⟩
  obtain ⟨cycle, hfault, hcycle⟩ := hcycles.cycle (.infiniteRecursion [0, 2]) (by rfl)
  obtain rfl := GrammarError.infiniteRecursion.inj hfault
  exact ⟨hrows, hchains, hcreation, hnested, hforever, hcycle, hrefused hforever .empty {} .standard⟩

end Tessera
