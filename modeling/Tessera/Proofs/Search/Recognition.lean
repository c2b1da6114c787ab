/-
**Two recognisers of one language.**

A grammar says twice which texts belong to a definition: by the search for a split, and by the pattern
of the definition.  The pattern stands for any text where a definition re-enters itself, so in general
it matches more.  Where no definition mentions itself, directly or through others, nothing is ever cut
off, and each definition on the way down is written out as its rule denotes.  Both then say the same.

Main definitions:

* `Tessera.Grammar.Mentions` — a rule mentions a definition;
* `Tessera.Grammar.Acyclic` — no definition mentions itself.

Main results:

* `Tessera.Grammar.Valid.matches_template_iff` — without cycles the pattern of a definition matches
  the texts of the definition and no others;
* `Tessera.recognisers_agree` — **the search accepts a text if and only if the pattern of the
  definition matches it**.
-/

import Mathlib.Logic.Relation
import Tessera.Proofs.Search.Completeness

set_option autoImplicit false

namespace Tessera

namespace Grammar

variable {g : Grammar} {d e : DefId} {w : Text}

/-! ### Grammars without cycles -/

/-- The rule of `d` mentions `e`. -/
def Mentions (g : Grammar) (d e : DefId) : Prop := e ∈ (g.rule d).references

/-- No definition mentions itself, neither directly nor through others. -/
def Acyclic (g : Grammar) : Prop := ∀ d, ¬ Relation.TransGen g.Mentions d d

/-- Definitions that mention only earlier ones do not mention themselves. -/
theorem acyclic_of_lt (h : ∀ d e, g.Mentions d e → e < d) : g.Acyclic := by
  have hlt : ∀ {d e}, Relation.TransGen g.Mentions d e → e < d := by
    intro d e hde
    induction hde with
    | single hde => exact h _ _ hde
    | tail _ hef ih => exact (h _ _ hef).trans ih
  exact fun d hd => Nat.lt_irrefl d (hlt hd)

/-- What is written out around a definition: definitions that lead to it, each of them once. -/
structure Around (g : Grammar) (entered : List DefId) (d : DefId) : Prop where
  nodup : entered.Nodup
  lt : ∀ e ∈ entered, e < g.size
  leads : ∀ e ∈ entered, Relation.TransGen g.Mentions e d

theorem Around.length_le {entered : List DefId} (h : g.Around entered d) :
    entered.length ≤ g.size := by
  have hsub : entered ⊆ List.range g.size := fun e he => List.mem_range.2 (h.lt e he)
  simpa using (h.nodup.subperm hsub).length_le

/-- Without cycles a definition is not written out inside of itself. -/
theorem Around.not_mem {entered : List DefId} (h : g.Around entered d) (hacyclic : g.Acyclic) :
    d ∉ entered := fun hd => hacyclic d (h.leads d hd)

/-- What a definition mentions is written out inside of it. -/
theorem Around.cons {entered : List DefId} (h : g.Around entered d) (hacyclic : g.Acyclic)
    (hd : d < g.size) (hde : g.Mentions d e) : g.Around (d :: entered) e where
  nodup := List.nodup_cons.2 ⟨h.not_mem hacyclic, h.nodup⟩
  lt := List.forall_mem_cons.2 ⟨hd, h.lt⟩
  leads := List.forall_mem_cons.2 ⟨.single hde, fun f hf => (h.leads f hf).tail hde⟩

/-! ### Patterns without wildcards -/

/-- **Without cycles the pattern of a definition matches its texts alone.**  By induction on the fuel,
which is never used up: the definitions around differ, and there is fuel for all of them. -/
theorem Valid.derives_of_matches_render (hg : g.Valid) (hacyclic : g.Acyclic) {limit fuel : Nat}
    (hlimit : 1 ≤ limit) {entered : List DefId} (haround : g.Around entered d) (hd : d < g.size)
    (hfuel : g.size < fuel + entered.length)
    (h : (Template.render g.rule limit fuel entered d).Matches g.engine w) : g.Derives d w := by
  induction fuel generalizing entered d w with
  | zero =>
      have := haround.length_le
      omega
  | succ fuel ih =>
      have hcount : entered.count d < limit := by
        rw [List.count_eq_zero_of_not_mem (haround.not_mem hacyclic)]
        omega
      have hdenotes := (hg.matches_render_iff (.inr hcount)).1 h
      refine derives_iff.2 (Rule.Denotes.mono (fun e he w hw => ?_) hdenotes)
      refine ih (haround.cons hacyclic hd he) (hg.references d e he) ?_ hw
      rw [List.length_cons]
      omega

/-- Without cycles the pattern of a definition matches the texts of the definition and no others. -/
theorem Valid.matches_template_iff (hg : g.Valid) (hacyclic : g.Acyclic)
    (hdepth : 1 ≤ g.limits.patternDepth) (hd : d < g.size) :
    (g.template d).Matches g.engine w ↔ g.Derives d w := by
  constructor
  · intro h
    have haround : g.Around [] d := ⟨List.nodup_nil, by simp, by simp⟩
    refine hg.derives_of_matches_render hacyclic hdepth haround hd ?_ h
    have hle : g.size ≤ g.limits.patternDepth * g.size := Nat.le_mul_of_pos_left _ hdepth
    rw [List.length_nil]
    omega
  · exact hg.matches_template_of_derives

end Grammar

/-- **The two recognisers agree.**  For a grammar whose engine keeps its laws, in which no definition
mentions itself, which writes out every definition at least once, and which has no possessive
quantifier, no recursion limit and no condition on a position: the search accepts a text if and only
if the pattern of the definition, when it compiles, matches all of the text. -/
theorem recognisers_agree {draft : Draft} {g : Grammar} (hbuild : draft.build = .ok g)
    (hlawful : g.engine.Lawful) (hacyclic : g.Acyclic) (hdepth : 1 ≤ g.limits.patternDepth)
    (hquantifiers : g.NonPossessive) (hlimit : g.limits.recursionLimit = none) (hfree : g.LookFree)
    {d : DefId} (hd : d < g.size) {isMatch : Text → Bool}
    (hcompiles : g.engine.whole? (g.regex d) = some isMatch) (text : Text) :
    (∃ split, (resolve g d text).result = .ok split) ↔ isMatch text = true := by
  have hg := Draft.build_valid hbuild
  calc (∃ split, (resolve g d text).result = .ok split)
      ↔ g.Derives d text :=
        resolve_ok_iff_derives hg hquantifiers hlimit ⟨hlawful, hfree⟩ hd text
    _ ↔ (g.template d).Matches g.engine text :=
        (hg.matches_template_iff hacyclic hdepth hd).symm
    _ ↔ isMatch text = true :=
        (hlawful.whole (g.template d) (hg.wellformed_template hfree d) isMatch hcompiles text).symm

/-! ### Ones with commas -/

/-- Ones with commas between them. -/
def commaRules : Array Rule :=
  #[.literal ['1'], .literal [','], .separated 0 1 none ⟨0, some 2, .greedy⟩]

/-- The draft of the ones with commas. -/
def commaDraft : Draft := ⟨commaRules.map some, .empty, {}, .standard⟩

/-- The grammar of the ones with commas. -/
def commaGrammar : Grammar where
  rules := commaRules
  resolved := #[0, 1, 2]
  names := .empty
  limits := {}
  engine := .standard
  acceptors := Acceptors.ofRules .standard commaRules {} #[none, none, none]

theorem commaDraft_build : commaDraft.build = .ok commaGrammar := by with_unfolding_all rfl

/-- The rules of the ones with commas, one by one. -/
theorem commaGrammar_rule (d : DefId) :
    commaGrammar.rule d = .literal ['1'] ∨ commaGrammar.rule d = .literal [','] ∨
      commaGrammar.rule d = .empty ∨
      (d = 2 ∧ commaGrammar.rule d = .separated 0 1 none ⟨0, some 2, .greedy⟩) := by
  by_cases hd : d < commaGrammar.size
  · match d, hd with
    | 0, _ => exact .inl rfl
    | 1, _ => exact .inr (.inl rfl)
    | 2, _ => exact .inr (.inr (.inr ⟨rfl, rfl⟩))
  · exact .inr (.inr (.inl (Grammar.rule_of_le (Nat.not_lt.1 hd))))

theorem commaGrammar_acyclic : commaGrammar.Acyclic := by
  refine Grammar.acyclic_of_lt fun d e hde => ?_
  rw [Grammar.Mentions] at hde
  rcases commaGrammar_rule d with h | h | h | ⟨rfl, h⟩ <;> rw [h] at hde
  · cases hde
  · cases hde
  · cases hde
  · rcases List.mem_cons.1 hde with rfl | he
    · decide
    · obtain rfl := List.mem_singleton.1 he
      decide

theorem commaGrammar_nonPossessive : commaGrammar.NonPossessive := by
  intro d hd
  rcases commaGrammar_rule d with h | h | h | ⟨rfl, h⟩ <;> rw [h] at hd <;> cases hd

theorem commaGrammar_lookFree : commaGrammar.LookFree :=
  Grammar.lookFree_of_rules (by simp [commaGrammar, commaRules])

/-- Two ones with a comma are matched and accepted, and a comma alone is neither. -/
theorem recognisers_agree_comma :
    ∃ isMatch, commaGrammar.engine.whole? (commaGrammar.regex 2) = some isMatch ∧
      (∃ split, (resolve commaGrammar 2 ['1', ',', '1']).result = .ok split) ∧
      ¬ ∃ split, (resolve commaGrammar 2 [',']).result = .ok split := by
  obtain ⟨isMatch, hcompiles⟩ :
      ∃ isMatch, commaGrammar.engine.whole? (commaGrammar.regex 2) = some isMatch :=
    Option.isSome_iff_exists.1 (by decide +kernel)
  have hboth : ((commaGrammar.engine.whole? (commaGrammar.regex 2)).map fun isMatch =>
      (isMatch ['1', ',', '1'], isMatch [','])) = some (true, false) := by
    decide +kernel
  rw [hcompiles] at hboth
  obtain ⟨hmatch, hmismatch⟩ := Prod.mk.inj (Option.some.inj hboth)
  have hagree := recognisers_agree commaDraft_build Engine.standard_lawful commaGrammar_acyclic
    (by decide) commaGrammar_nonPossessive rfl commaGrammar_lookFree (by decide) hcompiles
  refine ⟨isMatch, hcompiles, (hagree _).2 hmatch, fun h => ?_⟩
  have hcomma := (hagree [',']).1 h
  rw [hmismatch] at hcomma
  cases hcomma

end Tessera
