/-
**What a finished grammar satisfies.**

A draft becomes a grammar only when all of its rules pass the checks.  What the checks establish is
collected here once; everything about searches and patterns starts from it.

Main definitions:

* `Tessera.Grammar.Valid` — what the checks establish.

Main results:

* `Tessera.Draft.build_valid` — **the grammar of a draft is valid**;
* `Tessera.Grammar.Valid.resolve_resolve` — behind every definition is one that only stands for
  itself.
-/

import Tessera.Grammar.Draft

set_option autoImplicit false

namespace Tessera

/-! ### Validators -/

section Validators

variable {ε α β : Type}

theorem Except.bind_eq_ok {x : Except ε α} {f : α → Except ε β} {b : β} :
    (x >>= f) = .ok b ↔ ∃ a, x = .ok a ∧ f a = .ok b := by
  cases x <;> simp [bind, Except.bind]

/-- A list passes a check when each of its members does. -/
theorem forM_eq_ok {f : α → Except ε Unit} {as : List α} (h : as.forM f = .ok ()) {a : α}
    (ha : a ∈ as) : f a = .ok () := by
  induction as with
  | nil => simp at ha
  | cons b bs ih =>
      obtain ⟨⟨⟩, hb, hbs⟩ := Except.bind_eq_ok.1 h
      rcases List.mem_cons.1 ha with rfl | ha
      · exact hb
      · exact ih hbs ha

/-- What is found for each member of a list stands in the same place as the member. -/
theorem mapM_eq_ok {f : α → Except ε β} {as : List α} {bs : List β} (h : as.mapM f = .ok bs) :
    bs.length = as.length ∧ ∀ (i : Nat) a, as[i]? = some a → ∃ b, bs[i]? = some b ∧ f a = .ok b := by
  induction as generalizing bs with
  | nil =>
      have : bs = [] := by simpa [pure, Except.pure] using h.symm
      simp [this]
  | cons a as ih =>
      rw [List.mapM_cons] at h
      obtain ⟨b, hb, h⟩ := Except.bind_eq_ok.1 h
      obtain ⟨bs', hbs', h⟩ := Except.bind_eq_ok.1 h
      have : bs = b :: bs' := by simpa [pure, Except.pure] using h.symm
      subst this
      obtain ⟨hlength, hget⟩ := ih hbs'
      refine ⟨by simp [hlength], fun i c hc => ?_⟩
      cases i with
      | zero =>
          have : a = c := by simpa using hc
          exact ⟨b, rfl, this ▸ hb⟩
      | succ i => simpa using hget i c (by simpa using hc)

end Validators

/-! ### Chains of indirections -/

/-- What a rule merely stands for, it mentions. -/
theorem Rule.target?_mem {rule : Rule} {target : DefId} (h : rule.target? = some target) :
    target ∈ rule.references := by
  cases rule <;> simp_all [Rule.target?, Rule.references]

theorem chainEnd?_succ {rule : DefId → Rule} {fuel : Nat} {d e : DefId}
    (h : chainEnd? rule fuel d = some e) : chainEnd? rule (fuel + 1) d = some e := by
  induction fuel generalizing d with
  | zero => simp [chainEnd?] at h
  | succ fuel ih =>
      rw [chainEnd?] at h ⊢
      cases ht : (rule d).target? with
      | none => simpa only [ht] using h
      | some target =>
          rw [ht] at h
          exact ih h

/-- The end of a chain stands for itself. -/
theorem target?_chainEnd? {rule : DefId → Rule} {fuel : Nat} {d e : DefId}
    (h : chainEnd? rule fuel d = some e) : (rule e).target? = none := by
  induction fuel generalizing d with
  | zero => simp [chainEnd?] at h
  | succ fuel ih =>
      rw [chainEnd?] at h
      split at h
      · exact ih h
      · next ht => rwa [← Option.some.inj h]

/-- A chain leads only through definitions that exist. -/
theorem chainEnd?_lt {rule : DefId → Rule} {size : Nat}
    (h : ∀ d, ∀ e ∈ (rule d).references, e < size) {fuel : Nat} {d e : DefId} (hd : d < size)
    (he : chainEnd? rule fuel d = some e) : e < size := by
  induction fuel generalizing d with
  | zero => simp [chainEnd?] at he
  | succ fuel ih =>
      rw [chainEnd?] at he
      split at he
      · next target ht => exact ih (h d target (Rule.target?_mem ht)) he
      · rwa [← Option.some.inj he]

/-- Where all chains end, every definition of the table has the end of its chain, and a number outside
of the table stands for itself. -/
theorem resolveChains_eq_ok {rules : Array Rule} {resolved : List DefId}
    (h : resolveChains rules = .ok resolved) (d : DefId) :
    (d < rules.size →
      chainEnd? (ruleOf rules) (rules.size + 1) d = some (resolved.toArray.getD d d)) ∧
    (¬ d < rules.size → resolved.toArray.getD d d = d) := by
  obtain ⟨hlength, hget⟩ := mapM_eq_ok h
  rw [List.length_range] at hlength
  constructor
  · intro hd
    obtain ⟨e, he, hd⟩ := hget d d (by simp [hd])
    have hresolve : resolved.toArray.getD d d = e := by
      simp [Array.getD_eq_getD_getElem?, he]
    split at hd
    · next hend => rw [hend, hresolve, Except.ok.inj hd]
    · simp at hd
  · intro hd
    simp [Array.getD_eq_getD_getElem?, hlength, hd]

/-! ### Valid grammars -/

namespace Grammar

/-- What the checks establish. -/
structure Valid (g : Grammar) : Prop where
  /-- Every definition that is mentioned exists. -/
  references : ∀ d, ∀ e ∈ (g.rule d).references, e < g.size
  /-- A definition that stands for itself is structural. -/
  resolve_self : ∀ d, (g.rule d).target? = none → g.resolve d = d
  /-- A definition that stands for another one behaves as that one. -/
  resolve_target : ∀ d target, (g.rule d).target? = some target → g.resolve d = g.resolve target
  /-- The structural definition ends the chain of indirections. -/
  chainEnd : ∀ d, ∃ fuel, chainEnd? g.rule fuel d = some (g.resolve d)
  /-- The structural definition stands for itself. -/
  target?_resolve : ∀ d, (g.rule (g.resolve d)).target? = none
  /-- The structural definition exists. -/
  resolve_lt : ∀ d, d < g.size → g.resolve d < g.size
  /-- Every bound leaves room. -/
  repetition : ∀ d r, (g.rule d).repetition? = some r → r.isValid = true
  /-- Every pattern can be read, and its leaf is decided by its exact matcher. -/
  pattern : ∀ d source, g.rule d = .pattern source → g.engine.reads source = true ∧
    ∃ isMatch, g.engine.whole? source = some isMatch ∧ g.acceptors.leaf d = isMatch
  /-- The acceptors are those of the rules. -/
  acceptors : ∃ leaves, g.acceptors = Acceptors.ofRules g.engine g.rules g.limits leaves

end Grammar

section Rules

variable {engine : Engine} {size : Nat} {rule : Rule} {source : Text}

theorem checkRule_references (h : checkRule engine size rule = .ok ()) {e : DefId}
    (he : e ∈ rule.references) : e < size := by
  unfold checkRule at h
  cases hfind : rule.references.find? fun d => decide (size ≤ d) with
  | some d => simp [hfind] at h
  | none => simpa using List.find?_eq_none.1 hfind e he

theorem checkRule_repetition (h : checkRule engine size rule = .ok ()) {r : Repetition}
    (hr : rule.repetition? = some r) : r.isValid = true := by
  unfold checkRule at h
  cases hfind : rule.references.find? fun d => decide (size ≤ d) with
  | some d => simp [hfind] at h
  | none =>
      cases rule <;> simp_all [Rule.repetition?]

theorem checkRule_pattern (h : checkRule engine size (.pattern source) = .ok ()) :
    engine.reads source = true := by
  simp only [checkRule, Rule.references, List.find?_nil] at h
  by_cases hread : engine.reads source = true
  · exact hread
  · simp [hread] at h

theorem compileLeaf_pattern {leaf : Option (Text → Bool)}
    (h : compileLeaf engine (.pattern source) = .ok leaf) :
    ∃ isMatch, engine.whole? source = some isMatch ∧ leaf = some isMatch := by
  rw [compileLeaf] at h
  cases hmatch : engine.whole? source with
  | none => simp [hmatch] at h
  | some isMatch =>
      rw [hmatch] at h
      exact ⟨isMatch, rfl, (Except.ok.inj h).symm⟩

end Rules

namespace Grammar

/-- **The grammar of a table of rules that passes the checks is valid.** -/
theorem ofRules_valid {engine : Engine} {rules : Array Rule} {names : NameTable} {limits : Limits}
    {g : Grammar} (h : Grammar.ofRules engine rules names limits = .ok g) : g.Valid := by
  obtain ⟨⟨⟩, hrules, h⟩ := Except.bind_eq_ok.1 h
  obtain ⟨leaves, hleaves, h⟩ := Except.bind_eq_ok.1 h
  obtain ⟨resolved, hresolved, h⟩ := Except.bind_eq_ok.1 h
  obtain ⟨⟨⟩, _, h⟩ := Except.bind_eq_ok.1 h
  obtain ⟨⟨⟩, _, h⟩ := Except.bind_eq_ok.1 h
  have hg := (Except.ok.inj h).symm
  have hrule : g.rule = ruleOf rules := by rw [hg]; rfl
  have hsize : g.size = rules.size := by rw [hg]; rfl
  have hmem : ∀ d, d < rules.size → ruleOf rules d ∈ rules.toList := by
    intro d hd
    simp [ruleOf, Array.getD, hd]
  have hout : ∀ d, ¬ d < rules.size → ruleOf rules d = .empty := by
    intro d hd
    simp [ruleOf, Array.getD, hd]
  have hcheck : ∀ d, d < rules.size → checkRule engine rules.size (ruleOf rules d) = .ok () :=
    fun d hd => forM_eq_ok hrules (hmem d hd)
  -- the structural definitions
  have hresolve : ∀ d, g.resolve d = resolved.toArray.getD d d := fun d => by rw [hg]; rfl
  have hchain : ∀ d, d < rules.size →
      chainEnd? (ruleOf rules) (rules.size + 1) d = some (g.resolve d) :=
    fun d hd => hresolve d ▸ (resolveChains_eq_ok hresolved d).1 hd
  have hself : ∀ d, ¬ d < rules.size → g.resolve d = d :=
    fun d hd => (hresolve d).trans ((resolveChains_eq_ok hresolved d).2 hd)
  have hstructural : ∀ d, (ruleOf rules (g.resolve d)).target? = none := by
    intro d
    by_cases hd : d < rules.size
    · exact target?_chainEnd? (hchain d hd)
    · rw [hself d hd, hout d hd]; rfl
  have hreferences : ∀ d, ∀ e ∈ (ruleOf rules d).references, e < rules.size := by
    intro d e he
    by_cases hd : d < rules.size
    · exact checkRule_references (hcheck d hd) he
    · rw [hout d hd] at he; simp [Rule.references] at he
  have hresolve_self : ∀ d, (ruleOf rules d).target? = none → g.resolve d = d := by
    intro d ht
    by_cases hd : d < rules.size
    · have := hchain d hd
      rw [chainEnd?, ht] at this
      exact (Option.some.inj this).symm
    · exact hself d hd
  have hresolve_lt : ∀ d, d < rules.size → g.resolve d < rules.size :=
    fun d hd => chainEnd?_lt hreferences hd (hchain d hd)
  refine ⟨?_, ?_, ?_, ?_, ?_, ?_, ?_, ?_, ⟨leaves.toArray, by rw [hg]⟩⟩
  · rw [hrule, hsize]; exact hreferences
  · rw [hrule]; exact hresolve_self
  · intro d target ht
    rw [hrule] at ht
    have hd : d < rules.size := by
      by_cases hd : d < rules.size
      · exact hd
      · rw [hout d hd] at ht; simp [Rule.target?] at ht
    have htarget : target < rules.size := hreferences d target (Rule.target?_mem ht)
    have hfrom := hchain d hd
    rw [chainEnd?, ht] at hfrom
    have := chainEnd?_succ hfrom
    rw [hchain target htarget] at this
    exact (Option.some.inj this).symm
  · intro d
    rw [hrule]
    by_cases hd : d < rules.size
    · exact ⟨_, hchain d hd⟩
    · refine ⟨1, ?_⟩
      rw [chainEnd?, hout d hd, hself d hd]
      rfl
  · rw [hrule]; exact hstructural
  · rw [hsize]; exact hresolve_lt
  · intro d r hr
    rw [hrule] at hr
    by_cases hd : d < rules.size
    · exact checkRule_repetition (hcheck d hd) hr
    · rw [hout d hd] at hr; simp [Rule.repetition?] at hr
  · intro d source hsource
    rw [hrule] at hsource
    have hd : d < rules.size := by
      by_cases hd : d < rules.size
      · exact hd
      · rw [hout d hd] at hsource; simp at hsource
    have hengine : g.engine = engine := by rw [hg]
    rw [hengine]
    refine ⟨checkRule_pattern (hsource ▸ hcheck d hd), ?_⟩
    have hgetd : rules.toList[d]? = some (Rule.pattern source) := by
      rw [← hsource]
      simp [ruleOf, Array.getD, hd]
    obtain ⟨leaf, hleaf, hcompile⟩ := (mapM_eq_ok hleaves).2 d _ hgetd
    obtain ⟨isMatch, hmatch, rfl⟩ := compileLeaf_pattern hcompile
    refine ⟨isMatch, hmatch, ?_⟩
    rw [hg]
    funext text
    simp [Acceptors.ofRules, Array.getD_eq_getD_getElem?, hleaf]

namespace Valid

variable {g : Grammar} (h : g.Valid)
include h

/-- Behind every definition is one that only stands for itself. -/
theorem resolve_resolve (d : DefId) : g.resolve (g.resolve d) = g.resolve d :=
  h.resolve_self _ (h.target?_resolve d)

theorem target?_shape (d : DefId) : (g.shape d).target? = none := h.target?_resolve d

theorem references_shape {d e : DefId} (he : e ∈ (g.shape d).references) : e < g.size :=
  h.references _ e he

end Valid

end Grammar

/-- **The grammar of a draft is valid.** -/
theorem Draft.build_valid {draft : Draft} {g : Grammar} (h : draft.build = .ok g) : g.Valid := by
  obtain ⟨rules, _, h⟩ := Except.bind_eq_ok.1 h
  exact Grammar.ofRules_valid h

/-! ### A left-recursive grammar -/

/-- Rows of the letter `a`: a row is a row and one more letter, or a letter.  Definition 0 refers to
the row. -/
def rowRules : Array Rule :=
  #[.forward 3, .pattern ['a'], .sequence [0, 1], .choice [2, 1]]

/-- The draft of the rows. -/
def rowDraft : Draft := ⟨rowRules.map some, .empty, {}, .standard⟩

/-- The grammar of the rows. -/
def rowGrammar : Grammar where
  rules := rowRules
  resolved := #[3, 1, 2, 3]
  names := .empty
  limits := {}
  engine := .standard
  acceptors := Acceptors.ofRules .standard rowRules {} #[none, Engine.standard.whole? ['a'], none, none]

theorem rowDraft_build : rowDraft.build = .ok rowGrammar := by with_unfolding_all rfl

end Tessera
