/-
**Patterns that outgrow every multiple of their depth.**

The depth counts how often a definition is entered on the way down, for each definition by itself and
anew on every way.  So a definition on a cycle that writes out a second definition which leads to a
cycle writes out the whole second cycle in every round of the first.  When the second cycle leads back
to the definition the rounds even double.

As long as there are entries to spare for all definitions, every step downwards takes at most one of
them from each.  A round of a cycle has a bounded number of steps, so with enough depth there are as many
rounds as one likes, and each of them may be made as long as one likes.

Main definitions:

* `Tessera.EntriesLeft` — entries are to spare for all definitions;
* `Tessera.Grammar.AtLeast` — how long a pattern is when there are entries to spare;
* `Tessera.treeGrammar` — trees, which are made of two trees.

Main results:

* `Tessera.Grammar.Valid.exists_lt_length_regexAt` — **a fork outgrows every multiple of the depth**;
* `Tessera.regexAt_linear_iff` — **the length is bounded by a multiple of the depth exactly when no fork
  is mentioned**;
* `Tessera.treeGrammar_outgrows` — trees have forks.
-/

import Tessera.Proofs.Grammar.Lengths
import Tessera.Proofs.Search.PatternDepth

set_option autoImplicit false

namespace Tessera

/-! ### Signs of rules -/

namespace Rule

/-- An indirection mentions nothing but its target. -/
theorem references_of_target? {r : Rule} {target : DefId} (h : r.target? = some target) :
    r.references = [target] := by
  cases r <;> simp_all [target?, references]

/-- A rule that is more than an indirection and mentions something has signs of its own. -/
theorem ownLength_pos {r : Rule} (hindirect : r.target? = none) (hmentions : r.references ≠ []) :
    0 < r.ownLength := by
  cases r with
  | literal text => exact absurd rfl hmentions
  | pattern source => exact absurd rfl hmentions
  | empty => exact absurd rfl hmentions
  | sequence items =>
      cases items with
      | nil => exact absurd rfl hmentions
      | cons item items =>
          simp [ownLength, template, Template.toText, Template.joined, Template.group]
  | choice alternatives =>
      cases alternatives with
      | nil => exact absurd rfl hmentions
      | cons a as => simp [ownLength, template, Template.toText, Template.group]
  | optional item quantifier => simp [ownLength, template, Template.toText, Template.group]
  | loop item r =>
      simp [ownLength, template, Template.toText, Template.repeatedText, Template.group]
  | separated item separator default r =>
      rw [ownLength, template, Template.toText, Template.separatedText]
      split <;> simp [Template.group]
  | «alias» target name => cases hindirect
  | forward target => cases hindirect
  | withDefault content target => cases hindirect

end Rule

/-! ### Entries to spare -/

/-- Every definition may be entered `m` more times, and there is fuel for as many steps. -/
structure EntriesLeft (limit m fuel : Nat) (entered : List DefId) : Prop where
  count : ∀ d, entered.count d + m ≤ limit
  fuel : m < fuel

namespace EntriesLeft

variable {limit m m' fuel : Nat} {entered : List DefId}

theorem mono (h : EntriesLeft limit m' fuel entered) (hle : m ≤ m') :
    EntriesLeft limit m fuel entered :=
  ⟨fun d => (Nat.add_le_add_left hle _).trans (h.count d), hle.trans_lt h.fuel⟩

/-- A step downwards takes at most one entry. -/
theorem enter (h : EntriesLeft limit (m + 1) (fuel + 1) entered) (d : DefId) :
    EntriesLeft limit m fuel (d :: entered) where
  count := fun e => by
    have hcount := h.count e
    rw [List.count_cons]
    split <;> omega
  fuel := Nat.lt_of_succ_lt_succ h.fuel

end EntriesLeft

namespace Grammar

variable {g : Grammar} {d e : DefId} {m m' b b' : Nat}

/-! ### Patterns with entries to spare -/

/-- The pattern has at least the length `b` wherever `m` entries are to spare. -/
def AtLeast (g : Grammar) (m b : Nat) (d : DefId) : Prop :=
  ∀ limit fuel entered, EntriesLeft limit m fuel entered → b ≤ g.lengthIn limit fuel entered d

theorem AtLeast.mono (h : g.AtLeast m b d) (hm : m ≤ m') (hb : b' ≤ b) : g.AtLeast m' b' d :=
  fun limit fuel entered hspare => hb.trans (h limit fuel entered (hspare.mono hm))

theorem atLeast_zero (m : Nat) (d : DefId) : g.AtLeast m 0 d := fun _ _ _ _ => Nat.zero_le _

/-- With an entry to spare a definition is written out. -/
theorem atLeast_of_sum (h : ∀ limit fuel entered, EntriesLeft limit m fuel entered →
    b ≤ (g.rule d).ownLength + ((g.rule d).written.map (g.lengthIn limit fuel entered)).sum) :
    g.AtLeast (m + 1) b d := by
  intro limit fuel entered hspare
  obtain ⟨fuel, rfl⟩ : ∃ n, fuel = n + 1 := ⟨fuel - 1, by have := hspare.fuel; omega⟩
  have hcount := hspare.count d
  rw [lengthIn_succ g limit fuel entered d (.inr (by omega))]
  exact h limit fuel _ (hspare.enter d)

/-- A definition is longer than one that it mentions, by its own signs. -/
theorem AtLeast.of_mentions (h : g.AtLeast m b e) (hde : g.Mentions d e) :
    g.AtLeast (m + 1) ((g.rule d).ownLength + b) d :=
  atLeast_of_sum fun limit fuel entered hspare => by
    refine Nat.add_le_add_left ((h limit fuel entered hspare).trans ?_) _
    exact List.single_le_sum (fun _ _ => Nat.zero_le _) _
      (List.mem_map_of_mem (Rule.mem_written.2 hde))

/-- A definition is longer than two that it writes out. -/
theorem AtLeast.add {a a' : DefId} (h : g.AtLeast m b a) (h' : g.AtLeast m b' a')
    (hpair : List.Subperm [a, a'] (g.rule d).written) : g.AtLeast (m + 1) (b + b') d :=
  atLeast_of_sum fun limit fuel entered hspare => by
    obtain ⟨l, hperm, hsub⟩ := hpair
    have hsum : ([a, a'].map (g.lengthIn limit fuel entered)).sum ≤
        ((g.rule d).written.map (g.lengthIn limit fuel entered)).sum := by
      rw [← (hperm.map _).sum_eq]
      exact (hsub.map _).sum_le_sum fun _ _ => Nat.zero_le _
    have hleft := h limit fuel entered hspare
    have hright := h' limit fuel entered hspare
    simp only [List.map_cons, List.map_nil, List.sum_cons, List.sum_nil] at hsum
    omega

/-- Along a way downwards nothing is lost but entries. -/
theorem exists_atLeast_of_leads (h : Relation.ReflTransGen g.Mentions d e) :
    ∃ k, ∀ m b, g.AtLeast m b e → g.AtLeast (m + k) b d := by
  induction h using Relation.ReflTransGen.head_induction_on with
  | refl => exact ⟨0, fun m b h => h⟩
  | head hde _ ih =>
      obtain ⟨k, hk⟩ := ih
      exact ⟨k + 1, fun m b h =>
        ((hk m b h).of_mentions hde).mono (Nat.le_refl _) (Nat.le_add_left b _)⟩

/-! ### Rounds -/

/-- Behind a definition that leads to a cycle there is one that leads there and is more than an
indirection. -/
theorem leads_of_chainEnd? (hd : g.Recurs d) {fuel : Nat} {x s : DefId}
    (hchain : chainEnd? g.rule fuel x = some s) (hx : Relation.TransGen g.Mentions x d) :
    Relation.ReflTransGen g.Mentions x s ∧ Relation.TransGen g.Mentions s d := by
  induction fuel generalizing x with
  | zero => cases hchain
  | succ fuel ih =>
      rw [chainEnd?] at hchain
      split at hchain
      · next target htarget =>
        -- an indirection mentions nothing but its target
        obtain ⟨y, hxy, hyd⟩ := Relation.TransGen.head'_iff.1 hx
        obtain rfl : y = target := by
          rw [Mentions, Rule.references_of_target? htarget] at hxy
          exact List.mem_singleton.1 hxy
        have hy : Relation.TransGen g.Mentions y d := by
          rcases Relation.reflTransGen_iff_eq_or_transGen.1 hyd with rfl | hyd
          · exact hd
          · exact hyd
        obtain ⟨hys, hsd⟩ := ih hchain hy
        exact ⟨.head hxy hys, hsd⟩
      · obtain rfl := Option.some.inj hchain
        exact ⟨.refl, hx⟩

/-- On every cycle there is a definition with signs of its own. -/
theorem Valid.exists_ownLength_pos (hg : g.Valid) (hd : g.Recurs d) :
    ∃ s, Relation.ReflTransGen g.Mentions d s ∧ g.Recurs s ∧ 0 < (g.rule s).ownLength := by
  obtain ⟨fuel, hchain⟩ := hg.chainEnd d
  obtain ⟨hds, hsd⟩ := leads_of_chainEnd? hd hchain hd
  have hrecurs : g.Recurs (g.resolve d) := hsd.trans_left hds
  obtain ⟨x, hmentions, -⟩ := hrecurs.exists_mentions
  exact ⟨g.resolve d, hds, hrecurs,
    Rule.ownLength_pos (hg.target?_resolve d) (List.ne_nil_of_mem hmentions)⟩

/-- In every round of a cycle the pattern gets longer. -/
theorem Recurs.exists_atLeast (hd : g.Recurs d) (hpos : 0 < (g.rule d).ownLength) :
    ∃ k, ∀ n, g.AtLeast (n * k) n d := by
  obtain ⟨x, hdx, hxd⟩ := hd.exists_mentions
  obtain ⟨k, hk⟩ := exists_atLeast_of_leads hxd
  refine ⟨k + 1, fun n => ?_⟩
  induction n with
  | zero => exact atLeast_zero _ d
  | succ n ih =>
      refine ((hk _ n ih).of_mentions hdx).mono ?_ (by omega)
      rw [Nat.succ_mul, Nat.add_assoc]

/-- A definition that leads to a cycle is as long as one likes. -/
theorem Valid.exists_atLeast_of_cyclic (hg : g.Valid) (hd : g.Cyclic d) (n : Nat) :
    ∃ m, g.AtLeast m n d := by
  obtain ⟨e, hde, he⟩ := hd
  obtain ⟨s, hes, hs, hpos⟩ := hg.exists_ownLength_pos he
  obtain ⟨k, hk⟩ := hs.exists_atLeast hpos
  obtain ⟨k', hk'⟩ := exists_atLeast_of_leads (hde.trans hes)
  exact ⟨n * k + k', hk' _ n (hk n)⟩

/-! ### Forks -/

/-- A fork writes out a definition that leads back to it and beside it one that leads to a cycle. -/
theorem Forks.exists_pair (h : g.Forks d) :
    ∃ x a, List.Subperm [x, a] (g.rule d).written ∧ Relation.ReflTransGen g.Mentions x d ∧
      g.Cyclic a := by
  obtain ⟨hd, a, b, hpair, ha, hb⟩ := h
  obtain ⟨x, hdx, hxd⟩ := hd.exists_mentions
  by_cases hax : a = x
  · subst hax
    exact ⟨a, b, hpair, hxd, hb⟩
  · have hmem : a ∈ (g.rule d).written := hpair.subset List.mem_cons_self
    exact ⟨x, a, subperm_of_mem_of_ne (Rule.mem_written.2 hdx) hmem (Ne.symm hax), hxd, ha⟩

/-- In every round of a fork the pattern gets longer by as much as one likes, and the number of entries
that a round takes does not depend on it. -/
theorem Forks.exists_atLeast (hg : g.Valid) (h : g.Forks d) :
    ∃ k, ∀ b, ∃ m, ∀ n, g.AtLeast (m + n * k) (n * b) d := by
  obtain ⟨x, a, hpair, hxd, ha⟩ := h.exists_pair
  obtain ⟨k, hk⟩ := exists_atLeast_of_leads hxd
  refine ⟨k + 1, fun b => ?_⟩
  obtain ⟨m, hm⟩ := hg.exists_atLeast_of_cyclic ha b
  refine ⟨m, fun n => ?_⟩
  induction n with
  | zero => exact (atLeast_zero _ d).mono (Nat.le_refl _) (by rw [Nat.zero_mul])
  | succ n ih =>
      have hround : g.AtLeast (m + n * (k + 1) + k) b a := hm.mono (by omega) (Nat.le_refl b)
      refine ((hk _ _ ih).add hround hpair).mono ?_ (by rw [Nat.succ_mul])
      rw [Nat.succ_mul]
      omega

/-- **A fork outgrows every multiple of the depth**, and so does a definition that leads to it. -/
theorem Valid.exists_lt_length_regexAt (hg : g.Valid) (hde : Relation.ReflTransGen g.Mentions d e)
    (he : g.Forks e) (c : Nat) : ∃ depth, 1 ≤ depth ∧ c * depth < (g.regexAt depth d).length := by
  obtain ⟨k, hk⟩ := he.exists_atLeast hg
  obtain ⟨k', hk'⟩ := exists_atLeast_of_leads hde
  -- the rounds are longer than the entries that they take
  obtain ⟨m, hm⟩ := hk (c * k + 1)
  have hsize : 0 < g.size := by
    obtain ⟨x, -, hxe⟩ := Relation.TransGen.tail'_iff.1 he.1
    exact Nat.zero_lt_of_lt (hg.references x e hxe)
  let n := c * (m + k') + c + 1
  have hlength : n * (c * k + 1) ≤ (g.regexAt (m + n * k + k' + 1) d).length := by
    refine hk' _ _ (hm n) _ _ [] ⟨fun x => ?_, ?_⟩
    · rw [List.count_nil]
      omega
    · have := Nat.le_mul_of_pos_right (m + n * k + k' + 1) hsize
      omega
  refine ⟨m + n * k + k' + 1, by omega, Nat.lt_of_lt_of_le ?_ hlength⟩
  calc c * (m + n * k + k' + 1) = c * (m + k') + c + n * (c * k) := by ring
    _ < n * (c * k) + n := by omega
    _ = n * (c * k + 1) := (Nat.mul_succ ..).symm

end Grammar

/-! ### Multiples of the depth -/

/-- A grammar that is built with a depth writes its patterns out to that depth. -/
theorem Draft.regex_withDepth {draft : Draft} {depth : Nat} {g g' : Grammar}
    (h : draft.build = .ok g) (h' : (draft.withDepth depth).build = .ok g') (d : DefId) :
    g'.regex d = g.regexAt depth d := by
  obtain ⟨halike, -⟩ := Draft.build_alike h h'
  obtain ⟨rules, -, h'⟩ := Except.bind_eq_ok.1 h'
  obtain ⟨-, hlimits, -⟩ := Grammar.ofRules_alike h' h'
  rw [Grammar.regex, Grammar.template, hlimits, halike.rule_eq, halike.size_eq]
  rfl

/-- **The length is bounded by a multiple of the depth exactly when no fork is mentioned.**  For every
grammar and every definition: there is a constant such that at every depth the pattern of the
definition is no longer than the constant times the depth, if and only if the definition does not lead
to a fork.  These are the patterns of the grammars that are built with the depths as limits. -/
theorem regexAt_linear_iff {draft : Draft} {g : Grammar} (hbuild : draft.build = .ok g) (d : DefId) :
    ((∃ c, ∀ depth, 1 ≤ depth → (g.regexAt depth d).length ≤ c * depth) ↔
      ∀ e, Relation.ReflTransGen g.Mentions d e → ¬ g.Forks e) ∧
    ∀ depth g', (draft.withDepth depth).build = .ok g' → g'.regex d = g.regexAt depth d := by
  have hg := Draft.build_valid hbuild
  refine ⟨⟨?_, hg.exists_length_regexAt_le⟩, fun _ _ hbuild' =>
    Draft.regex_withDepth hbuild hbuild' d⟩
  rintro ⟨c, hc⟩ e hde he
  obtain ⟨depth, hdepth, hlt⟩ := hg.exists_lt_length_regexAt hde he c
  exact absurd (hc depth hdepth) (Nat.not_le.2 hlt)

/-- A row mentions a single row, so its pattern grows with the depth by the same length each time. -/
theorem regexAt_linear_row :
    rowDraft.build = .ok rowGrammar ∧
      ∃ c, ∀ depth, 1 ≤ depth → (rowGrammar.regexAt depth 0).length ≤ c * depth := by
  have hleaf : ∀ e, ¬ rowGrammar.Mentions 1 e := fun e he => by cases he
  have hcyclic : ¬ rowGrammar.Cyclic 1 := by
    rintro ⟨e, h1e, he⟩
    obtain ⟨x, hex, -⟩ := he.exists_mentions
    rcases Relation.ReflTransGen.cases_head h1e with rfl | ⟨y, h1y, -⟩
    · exact hleaf x hex
    · exact hleaf y h1y
  refine ⟨rowDraft_build, ((regexAt_linear_iff rowDraft_build 0).1).2 ?_⟩
  rintro e - ⟨-, a, b, hpair, ha, hb⟩
  -- beside the row there is the letter, which mentions nothing
  have hletter : ∀ x, ¬ List.Subperm [a, b] [x, 1] := by
    intro x hpair
    have hmem : 1 ∈ [a, b] :=
      (hpair.perm_of_length_le (Nat.le_refl 2)).mem_iff.2 (List.mem_of_mem_getLast? rfl)
    rcases List.mem_cons.1 hmem with rfl | hmem
    · exact hcyclic ha
    · exact hcyclic (List.mem_singleton.1 hmem ▸ hb)
  have htwo : 2 ≤ (rowGrammar.rule e).written.length := hpair.length_le
  by_cases hlt : e < rowGrammar.size
  · match e, hlt with
    | 0, _ => exact absurd htwo (by decide)
    | 1, _ => exact absurd htwo (by decide)
    | 2, _ => exact hletter 0 hpair
    | 3, _ => exact hletter 2 hpair
  · rw [Grammar.rule_of_le (Nat.not_lt.1 hlt)] at htwo
    exact absurd htwo (by decide)

/-! ### Trees -/

/-- Trees of letters: a tree is a letter, or two trees.  Definition 0 refers to the trees. -/
def treeRules : Array Rule :=
  #[.forward 3, .literal ['a'], .sequence [0, 0], .choice [1, 2]]

/-- The draft of the trees. -/
def treeDraft : Draft := ⟨treeRules.map some, .empty, {}, .standard⟩

/-- The grammar of the trees. -/
def treeGrammar (depth : Nat) : Grammar where
  rules := treeRules
  resolved := #[3, 1, 2, 3]
  names := .empty
  limits := { patternDepth := depth }
  engine := .standard
  acceptors := Acceptors.ofRules .standard treeRules { patternDepth := depth } #[none, none, none, none]

theorem treeDraft_build (depth : Nat) :
    (treeDraft.withDepth depth).build = .ok (treeGrammar depth) := by
  with_unfolding_all rfl

/-- Every round of the trees writes out two trees, and eighteen signs of its own. -/
theorem lengthIn_tree {g : Grammar} (hrules : g.rules = treeRules) {k limit fuel : Nat}
    {entered : List DefId} (hzero : entered.count 0 + k = limit)
    (htwo : entered.count 2 + k = limit) (hthree : entered.count 3 + k = limit)
    (hfuel : 3 * k < fuel) :
    g.lengthIn limit fuel entered 3 + 18 = 25 * 2 ^ k := by
  have hrule : g.rule = ruleOf treeRules := funext fun d => by rw [Grammar.rule, hrules]; rfl
  induction k generalizing fuel entered with
  | zero =>
      obtain ⟨fuel, rfl⟩ : ∃ n, fuel = n + 1 := ⟨fuel - 1, by omega⟩
      have hclosed : (!(g.rule 3).isLeaf && decide (limit ≤ entered.count 3)) = true := by
        rw [hrule, Bool.and_eq_true]
        exact ⟨rfl, decide_eq_true hthree.ge⟩
      rw [Grammar.lengthIn, Template.render_succ, if_pos hclosed]
      rfl
  | succ k ih =>
      obtain ⟨fuel, rfl⟩ : ∃ n, fuel = n + 3 := ⟨fuel - 3, by omega⟩
      have hround : g.lengthIn limit fuel (0 :: 2 :: 3 :: entered) 3 + 18 = 25 * 2 ^ k :=
        ih (by simp; omega) (by simp; omega) (by simp; omega) (by omega)
      have hchoice : g.lengthIn limit (fuel + 3) entered 3 = _ :=
        Grammar.lengthIn_succ g limit (fuel + 2) entered 3 (.inr (by omega))
      have hletter : g.lengthIn limit (fuel + 2) (3 :: entered) 1 = _ :=
        Grammar.lengthIn_succ g limit (fuel + 1) (3 :: entered) 1 (.inl (by rw [hrule]; rfl))
      have hsequence : g.lengthIn limit (fuel + 2) (3 :: entered) 2 = _ :=
        Grammar.lengthIn_succ g limit (fuel + 1) (3 :: entered) 2 (.inr (by simp; omega))
      have hforward : g.lengthIn limit (fuel + 1) (2 :: 3 :: entered) 0 = _ :=
        Grammar.lengthIn_succ g limit fuel (2 :: 3 :: entered) 0 (.inr (by simp; omega))
      rw [show (g.rule 3).ownLength = 9 by rw [hrule]; rfl,
        show (g.rule 3).written = [1, 2] by rw [hrule]; rfl] at hchoice
      rw [show (g.rule 1).ownLength = 1 by rw [hrule]; rfl,
        show (g.rule 1).written = [] by rw [hrule]; rfl] at hletter
      rw [show (g.rule 2).ownLength = 8 by rw [hrule]; rfl,
        show (g.rule 2).written = [0, 0] by rw [hrule]; rfl] at hsequence
      rw [show (g.rule 0).ownLength = 0 by rw [hrule]; rfl,
        show (g.rule 0).written = [3] by rw [hrule]; rfl] at hforward
      simp only [List.map_cons, List.map_nil, List.sum_cons, List.sum_nil] at hchoice hletter
      simp only [List.map_cons, List.map_nil, List.sum_cons, List.sum_nil] at hsequence hforward
      rw [Nat.pow_succ]
      omega

/-- **Trees outgrow every multiple of their depth**: with every depth the pattern doubles. -/
theorem treeGrammar_outgrows :
    (∀ depth, (treeDraft.withDepth depth).build = .ok (treeGrammar depth)) ∧
      (∀ depth, ((treeGrammar depth).regex 3).length + 18 = 25 * 2 ^ depth) ∧
      ¬ ∃ c, ∀ depth, 1 ≤ depth → ((treeGrammar depth).regex 3).length ≤ c * depth := by
  have hlength : ∀ depth, ((treeGrammar depth).regex 3).length + 18 = 25 * 2 ^ depth := by
    intro depth
    have hfuel : 3 * depth < depth * 4 + 2 := by omega
    have htree : (treeGrammar depth).lengthIn depth (depth * 4 + 2) [] 3 + 18 = 25 * 2 ^ depth :=
      lengthIn_tree rfl (Nat.zero_add _) (Nat.zero_add _) (Nat.zero_add _) hfuel
    exact htree
  refine ⟨treeDraft_build, hlength, ?_⟩
  rintro ⟨c, hc⟩
  -- at twice the depth the pattern is longer than the square
  have hbound := hc (2 * (c + 1)) (by omega)
  have hexact := hlength (2 * (c + 1))
  have hpow : c + 2 ≤ 2 ^ (c + 1) := Nat.lt_two_pow_self
  have hsquare : (c + 2) * (c + 2) ≤ 2 ^ (2 * (c + 1)) := by
    rw [Nat.two_mul, Nat.pow_add]
    exact Nat.mul_le_mul hpow hpow
  have hleft : c * (2 * (c + 1)) = 2 * (c * c) + 2 * c := by ring
  have hright : (c + 2) * (c + 2) = c * c + 4 * c + 4 := by ring
  omega

end Tessera
