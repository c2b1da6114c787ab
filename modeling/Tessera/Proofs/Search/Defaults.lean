/-
**Default contents fit.**

A default content is checked once, when the grammar is finished, against the definition that its
rule wraps.  It is used through other definitions: through all those that stand for this one, each
with a pattern of its own.  What a definition accepts depends on the structural definition behind it
alone, not on the name it is asked by and not on pruning, so the check holds for every definition
from which the default content is found.

Main definitions:

* `Tessera.Grammar.DefaultsFit` — every default content is accepted where it is declared.

Main results:

* `Tessera.Grammar.accepts_congr` — **all names of a definition accept the same texts**;
* `Tessera.Draft.build_defaultsFit` — the default contents of a finished grammar fit;
* `Tessera.Grammar.defaultContent?_eq` — **the outermost default on a chain wins**;
* `Tessera.Grammar.DefaultsFit.accepts_default` — **a definition accepts the default content that is
  found from it**.
-/

import Tessera.Proofs.Search.Acceptance

set_option autoImplicit false

namespace Tessera

/-! ### Names of a definition -/

namespace Grammar

variable {g : Grammar} {d d' e : DefId} {text : Text}

/-- **All names of a definition accept the same texts.** -/
theorem accepts_congr (hg : g.Valid) (hlimit : g.limits.recursionLimit = none) (hd : d < g.size)
    (hd' : d' < g.size) (h : g.resolve d = g.resolve d') : g.Accepts d text ↔ g.Accepts d' text := by
  have hrename : ∀ {d d'}, g.resolve d' = g.resolve d → ∀ fuel,
      ((g.query text).free fuel d 0 (byteLength text)).isSome →
        ((g.query text).free fuel d' 0 (byteLength text)).isSome := by
    intro d d' h fuel hfuel
    obtain ⟨s, hs⟩ := Option.isSome_iff_exists.1 hfuel
    obtain ⟨s', hs', -⟩ := Query.free_mono (q := g.query text) (Nat.le_refl fuel) h hs
    exact Option.isSome_of_eq_some hs'
  rw [accepts_iff hg hlimit hd, accepts_iff hg hlimit hd']
  exact exists_congr fun fuel => ⟨hrename h.symm fuel, hrename h fuel⟩

theorem rule_of_not_lt (hd : ¬ d < g.size) : g.rule d = .empty := by
  rw [Grammar.size] at hd
  simp [Grammar.rule, Array.getD, hd]

/-- A definition that stands for another one exists. -/
theorem lt_of_target? {target : DefId} (h : (g.rule d).target? = some target) : d < g.size := by
  by_contra hd
  simp [rule_of_not_lt hd, Rule.target?] at h

/-! ### Chains -/

/-- All definitions of a chain are names of one structural definition. -/
theorem resolve_of_mem_chainFrom (hg : g.Valid) {fuel : Nat} (he : e ∈ chainFrom g.rule fuel d) :
    g.resolve e = g.resolve d := by
  induction fuel generalizing d with
  | zero => rw [List.mem_singleton.1 he]
  | succ fuel ih =>
      rw [chainFrom] at he
      split at he
      · next target htarget =>
        rcases List.mem_cons.1 he with rfl | he
        · rfl
        · rw [ih he, hg.resolve_target d target htarget]
      · rw [List.mem_singleton.1 he]

/-- A chain that has come to its end does not get longer. -/
theorem chainFrom_of_chainEnd? {rule : DefId → Rule} {fuel fuel' : Nat}
    (h : chainEnd? rule (fuel + 1) d = some e) (hle : fuel ≤ fuel') :
    chainFrom rule fuel' d = chainFrom rule fuel d := by
  induction fuel generalizing fuel' d with
  | zero =>
      rw [chainEnd?] at h
      cases htarget : (rule d).target? with
      | some target => simp [htarget, chainEnd?] at h
      | none => cases fuel' <;> simp [chainFrom, htarget]
  | succ fuel ih =>
      obtain ⟨fuel', rfl⟩ : ∃ n, fuel' = n + 1 := ⟨fuel' - 1, by omega⟩
      rw [chainEnd?] at h
      rw [chainFrom, chainFrom]
      cases htarget : (rule d).target? with
      | some target =>
          rw [htarget] at h
          exact congrArg (d :: ·) (ih h (by omega))
      | none => rfl

end Grammar

/-- Every chain ends before it visits a definition twice. -/
theorem Draft.build_chainEnd? {draft : Draft} {g : Grammar} (h : draft.build = .ok g) {d : DefId}
    (hd : d < g.size) : chainEnd? g.rule (g.size + 1) d = some (g.resolve d) := by
  obtain ⟨rules, _, h⟩ := Except.bind_eq_ok.1 h
  obtain ⟨⟨⟩, _, h⟩ := Except.bind_eq_ok.1 h
  obtain ⟨leaves, _, h⟩ := Except.bind_eq_ok.1 h
  obtain ⟨resolved, hresolved, h⟩ := Except.bind_eq_ok.1 h
  obtain ⟨⟨⟩, _, h⟩ := Except.bind_eq_ok.1 h
  obtain ⟨⟨⟩, _, h⟩ := Except.bind_eq_ok.1 h
  obtain rfl := Except.ok.inj h
  exact (resolveChains_eq_ok hresolved d).1 hd

/-- The chain of a definition that stands for another one goes on with the chain of that one. -/
theorem Draft.build_chain {draft : Draft} {g : Grammar} (h : draft.build = .ok g) {d target : DefId}
    (htarget : (g.rule d).target? = some target) : g.chain d = d :: g.chain target := by
  have hd := g.lt_of_target? htarget
  obtain ⟨n, hn⟩ := Nat.exists_eq_succ_of_ne_zero (Nat.ne_zero_of_lt hd)
  have hend := build_chainEnd? h hd
  rw [hn, chainEnd?, htarget] at hend
  have hrest := Grammar.chainFrom_of_chainEnd? hend (Nat.le_succ n)
  rw [Grammar.chain, Grammar.chain, hn, Grammar.chainFrom, htarget]
  exact congrArg (d :: ·) hrest.symm

/-! ### Default contents -/

namespace Grammar

variable {g : Grammar} {d : DefId} {text : Text}

/-- **The outermost default on a chain wins**: a rule that brings a content of its own is not asked
further, and any other indirection has the default content of what it stands for. -/
theorem defaultContent?_eq {draft : Draft} (hbuild : draft.build = .ok g) (d : DefId) :
    g.defaultContent? d =
      match g.rule d with
      | .withDefault content _ => some content
      | rule => rule.target?.bind g.defaultContent? := by
  have hself : (g.rule d).target? = none → g.chain d = [d] := by
    intro htarget
    rw [chain]
    cases g.size <;> simp [chainFrom, htarget]
  rw [defaultContent?]
  cases hrule : g.rule d with
  | withDefault content target => rw [Draft.build_chain hbuild (by rw [hrule]; rfl)]; simp [hrule]
  | «alias» target name =>
      rw [Draft.build_chain hbuild (by rw [hrule]; rfl)]
      simp [hrule, Rule.target?, defaultContent?]
  | forward target =>
      rw [Draft.build_chain hbuild (by rw [hrule]; rfl)]
      simp [hrule, Rule.target?, defaultContent?]
  | _ => rw [hself (by rw [hrule]; rfl)]; simp [hrule, Rule.target?]

/-- A default content that is found stands in a rule of the chain. -/
theorem exists_withDefault (h : g.defaultContent? d = some text) :
    ∃ e ∈ g.chain d, ∃ target, g.rule e = .withDefault text target := by
  obtain ⟨e, he, hfound⟩ := List.exists_of_findSome?_eq_some h
  split at hfound
  · next content target hrule => exact ⟨e, he, target, by rw [hrule, Option.some.inj hfound]⟩
  · cases hfound

/-- A definition from which a default content is found exists. -/
theorem lt_of_defaultContent? (h : g.defaultContent? d = some text) : d < g.size := by
  by_contra hd
  have hchain : g.chain d = [d] := by
    rw [chain]
    cases g.size <;> simp [chainFrom, rule_of_not_lt hd, Rule.target?]
  obtain ⟨e, he, target, hrule⟩ := exists_withDefault h
  rw [hchain, List.mem_singleton] at he
  rw [he, rule_of_not_lt hd] at hrule
  cases hrule

/-- Every default content is accepted by the definition for which it is declared. -/
def DefaultsFit (g : Grammar) : Prop :=
  ∀ d target text, (g.rule d).default? = some (target, text) → g.Accepts target text

namespace DefaultsFit

variable (hfit : g.DefaultsFit)
include hfit

/-- **A definition accepts the default content that is found from it.** -/
theorem accepts_default (hg : g.Valid) (hlimit : g.limits.recursionLimit = none)
    (h : g.defaultContent? d = some text) : g.Accepts d text := by
  obtain ⟨e, he, target, hrule⟩ := exists_withDefault h
  have htarget : target < g.size := hg.references e target (by rw [hrule]; simp [Rule.references])
  have hname : g.resolve d = g.resolve target := by
    rw [← resolve_of_mem_chainFrom hg he]
    exact hg.resolve_target e target (by rw [hrule]; rfl)
  exact (accepts_congr hg hlimit (lt_of_defaultContent? h) htarget hname).2
    (hfit e target text (by rw [hrule]; rfl))

/-- A separator accepts the text that its loop inserts. -/
theorem accepts_separator {e item separator : DefId} {r : Repetition}
    (hshape : g.shape e = .separated item separator (some text) r) : g.Accepts separator text :=
  hfit (g.resolve e) separator text (by rw [← Grammar.shape, hshape]; rfl)

end DefaultsFit

end Grammar

/-- The default contents of a finished grammar fit. -/
theorem Draft.build_defaultsFit {draft : Draft} {g : Grammar} (h : draft.build = .ok g) :
    g.DefaultsFit := by
  obtain ⟨rules, _, h⟩ := Except.bind_eq_ok.1 h
  obtain ⟨⟨⟩, _, h⟩ := Except.bind_eq_ok.1 h
  obtain ⟨leaves, _, h⟩ := Except.bind_eq_ok.1 h
  obtain ⟨resolved, _, h⟩ := Except.bind_eq_ok.1 h
  obtain ⟨⟨⟩, _, h⟩ := Except.bind_eq_ok.1 h
  obtain ⟨⟨⟩, hdefaults, h⟩ := Except.bind_eq_ok.1 h
  obtain rfl := Except.ok.inj h
  intro d target text hdefault
  have hd : d < rules.toArray.size := by
    by_contra hd
    rw [Grammar.rule_of_not_lt hd] at hdefault
    cases hdefault
  have hcheck := forM_eq_ok hdefaults (List.mem_range.2 hd)
  rw [checkDefault, hdefault] at hcheck
  dsimp only at hcheck
  split at hcheck
  · next split hsplit => exact ⟨split, hsplit⟩
  · cases hcheck

/-! ### Lists with commas -/

/-- A literal is found at once in its own text, with and without pruning. -/
theorem Query.run_literal {q : Query} (hlimit : q.grammar.limits.recursionLimit = none) {d : DefId}
    (hshape : q.grammar.shape d = .literal q.text) :
    (q.run d).1 = .ok (.leaf ⟨0, byteLength q.text⟩) := by
  have hslice : q.slice 0 (byteLength q.text) = q.text := slice_eq_of_slice? (slice?_whole q.text)
  rw [run, parse]
  simp [SearchState.start, hlimit, parseShape, hshape, hslice, leaf, SearchState.happen]

theorem resolve_literal {g : Grammar} (hlimit : g.limits.recursionLimit = none) {d : DefId}
    {w : Text} (hshape : g.shape d = .literal w) :
    (resolve g d w).result = .ok (.leaf ⟨0, byteLength w⟩) := by
  have hrun : ∀ prune, (Query.run ⟨g, w, prune⟩ d).1 = .ok (.leaf ⟨0, byteLength w⟩) :=
    fun prune => Query.run_literal (q := ⟨g, w, prune⟩) hlimit hshape
  have hfully : ∀ before, (resolveFully g d w before).result = .ok (.leaf ⟨0, byteLength w⟩) := by
    intro before
    have := hrun false
    rw [resolveFully]
    split <;> simp_all
  have := hrun true
  rw [resolve]
  split
  · split <;> simp_all
  · exact hfully []

/-- Lists of the letter `a` with commas between any two.  A comma comes by default, which is found
behind another name of it.  The last definition is a comma and a letter. -/
def listRules : Array Rule :=
  #[.literal [','], .withDefault [','] 0, .alias 1 none, .literal ['a'], .separated 3 2 none .any,
    .sequence [2, 3]]

/-- The draft of the lists. -/
def listDraft : Draft := ⟨listRules.map some, .empty, {}, .standard⟩

/-- The grammar of the lists. -/
def listGrammar : Grammar where
  rules := listRules
  resolved := #[0, 0, 0, 3, 4, 5]
  names := .empty
  limits := {}
  engine := .standard
  acceptors := Acceptors.ofRules .standard listRules {} #[none, none, none, none, none, none]

theorem listDraft_build : listDraft.build = .ok listGrammar := by
  have hcomma : (resolve listGrammar 0 [',']).result = .ok (.leaf ⟨0, 1⟩) := resolve_literal rfl rfl
  have hdefault : checkDefault listGrammar 1 = .ok () := by
    have hrule : (listGrammar.rule 1).default? = some (0, [',']) := rfl
    simp [checkDefault, hrule, hcomma]
  have hdefaults : checkDefaults listGrammar = .ok () := by
    have hrest : checkDefaults listGrammar =
        (checkDefault listGrammar 1).bind fun _ => .ok () := by with_unfolding_all rfl
    rw [hrest, hdefault]
    rfl
  have hbuild : listDraft.build = (checkDefaults listGrammar).bind fun _ => .ok listGrammar := by
    with_unfolding_all rfl
  rw [hbuild, hdefaults]
  rfl

/-- The comma of a list is found through another name, and the letter has no default content. -/
example : listGrammar.defaultContent? 2 = some [','] ∧ listGrammar.defaultContent? 3 = none := by
  decide

end Tessera
