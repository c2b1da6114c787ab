/-
**The texts that the rules of a grammar denote.**

The rules denote languages: a literal its text, a pattern the texts that the engine accepts for it, a
choice the texts of its alternatives, and so on.  The languages of the definitions are the least
that the rules ask for: a text belongs to a definition when it does so in finitely many steps.

A definition that is written out as a pattern matches what its rule denotes, given what the
definitions that it mentions match.  So the pattern of a definition matches all of its texts, and the
matchers of a grammar rule nothing out that a definition denotes.  This takes an engine that keeps its
laws and patterns without conditions on positions, for what such a pattern matches does not depend on
what stands around it.

Main definitions:

* `Tessera.Rule.Denotes` — the texts of a rule, given those of the definitions;
* `Tessera.Grammar.Derives` — the texts of a definition;
* `Tessera.Grammar.LookFree` — no pattern has a condition on a position;
* `Tessera.Grammar.Regular` — the engine keeps its laws, and they cover every pattern.

Main results:

* `Tessera.Grammar.derives_iff`, `derives_least` — **the languages of the definitions are the least
  that the rules ask for**;
* `Tessera.Grammar.Valid.derives_resolve` — indirections change nothing;
* `Tessera.Grammar.Valid.matches_render_iff` — **a definition that is written out matches what its
  rule denotes**;
* `Tessera.Grammar.Valid.definition_admits`, `tail_admits` — **no matcher of the grammar rules out what
  a definition denotes**.
-/

import Tessera.Proofs.Grammar.Engines
import Tessera.Proofs.Grammar.Valid
import Tessera.Proofs.Search.Ranges

set_option autoImplicit false

namespace Tessera

/-! ### Languages of rules -/

/-- The texts that a rule denotes, given the texts that the engine accepts for patterns and the texts of
the definitions. -/
def Rule.Denotes (e : Engine) (L : DefId → Text → Prop) : Rule → Text → Prop
  | .literal text, w => w = text
  | .pattern source, w => e.Accepts source w
  | .empty, w => w = []
  | .sequence items, w => InRow (items.map L) w
  | .choice alternatives, w => ∃ a ∈ alternatives, L a w
  | .optional item _, w => w = [] ∨ L item w
  | .loop item r, w =>
      ∃ us : List Text, r.admits us.length = true ∧ (∀ u ∈ us, L item u) ∧ w = us.flatten
  | .separated item separator _ r, w =>
      ∃ us vs : List Text, r.admits us.length = true ∧ vs.length = us.length - 1 ∧
        (∀ u ∈ us, L item u) ∧ (∀ v ∈ vs, L separator v) ∧ w = (interleave us vs).flatten
  | .alias target _, w => L target w
  | .forward target, w => L target w
  | .withDefault _ target, w => L target w

/-- More texts of the definitions that a rule mentions make more texts of the rule. -/
theorem Rule.Denotes.mono {e : Engine} {L K : DefId → Text → Prop} {rule : Rule}
    (h : ∀ d ∈ rule.references, ∀ w, L d w → K d w) {w : Text} (hw : rule.Denotes e L w) :
    rule.Denotes e K w := by
  cases rule with
  | literal text => exact hw
  | pattern source => exact hw
  | empty => exact hw
  | sequence items =>
      refine InRow.mono ?_ hw
      rw [List.forall₂_map_left_iff, List.forall₂_map_right_iff]
      exact List.forall₂_same.2 h
  | choice alternatives =>
      obtain ⟨a, ha, hw⟩ := hw
      exact ⟨a, ha, h a ha w hw⟩
  | optional item _ => exact hw.imp id (h item List.mem_cons_self w)
  | loop item r =>
      obtain ⟨us, hcount, hus, rfl⟩ := hw
      exact ⟨us, hcount, fun u hu => h item List.mem_cons_self u (hus u hu), rfl⟩
  | separated item separator _ r =>
      obtain ⟨us, vs, hcount, hlength, hus, hvs, rfl⟩ := hw
      have hseparator : separator ∈ [item, separator] := List.mem_cons_of_mem item List.mem_cons_self
      exact ⟨us, vs, hcount, hlength, fun u hu => h item List.mem_cons_self u (hus u hu),
        fun v hv => h separator hseparator v (hvs v hv), rfl⟩
  | «alias» target _ => exact h target List.mem_cons_self w hw
  | forward target => exact h target List.mem_cons_self w hw
  | withDefault _ target => exact h target List.mem_cons_self w hw

namespace Grammar

/-- The text belongs to the definition in at most so many steps. -/
def DerivesIn (g : Grammar) : Nat → DefId → Text → Prop
  | 0, _, _ => False
  | n + 1, d, w => (g.rule d).Denotes g.engine (g.DerivesIn n) w

/-- The text belongs to the definition. -/
def Derives (g : Grammar) (d : DefId) (w : Text) : Prop := ∃ n, g.DerivesIn n d w

variable {g : Grammar} {d : DefId} {w : Text} {m n : Nat}

theorem DerivesIn.succ (h : g.DerivesIn n d w) : g.DerivesIn (n + 1) d w := by
  induction n generalizing d w with
  | zero => exact absurd h id
  | succ n ih => exact Rule.Denotes.mono (fun d _ w => ih) h

theorem DerivesIn.mono (hmn : m ≤ n) (h : g.DerivesIn m d w) : g.DerivesIn n d w := by
  induction hmn with
  | refl => exact h
  | step _ ih => exact ih.succ

/-- Several texts belong to a definition in a common number of steps. -/
theorem exists_derivesIn_all {us : List Text} (h : ∀ u ∈ us, g.Derives d u) :
    ∃ n, ∀ u ∈ us, g.DerivesIn n d u := by
  induction us with
  | nil => exact ⟨0, by simp⟩
  | cons u us ih =>
      obtain ⟨⟨m, hm⟩, hus⟩ := List.forall_mem_cons.1 h
      obtain ⟨n, hn⟩ := ih hus
      exact ⟨max m n, List.forall_mem_cons.2
        ⟨hm.mono (Nat.le_max_left m n), fun v hv => (hn v hv).mono (Nat.le_max_right m n)⟩⟩

theorem exists_derivesIn_row {items : List DefId} {ws : List Text}
    (h : List.Forall₂ g.Derives items ws) : ∃ n, List.Forall₂ (g.DerivesIn n) items ws := by
  induction h with
  | nil => exact ⟨0, .nil⟩
  | cons hd _ ih =>
      obtain ⟨m, hm⟩ := hd
      obtain ⟨n, hn⟩ := ih
      exact ⟨max m n, .cons (hm.mono (Nat.le_max_left m n))
        (hn.imp fun _ _ h => h.mono (Nat.le_max_right m n))⟩

theorem exists_denotes_derivesIn {rule : Rule} (h : rule.Denotes g.engine g.Derives w) :
    ∃ n, rule.Denotes g.engine (g.DerivesIn n) w := by
  cases rule with
  | literal text => exact ⟨0, h⟩
  | pattern source => exact ⟨0, h⟩
  | empty => exact ⟨0, h⟩
  | sequence items =>
      obtain ⟨ws, hws, rfl⟩ := h
      rw [List.forall₂_map_left_iff] at hws
      obtain ⟨n, hn⟩ := exists_derivesIn_row hws
      exact ⟨n, ws, by rwa [List.forall₂_map_left_iff], rfl⟩
  | choice alternatives =>
      obtain ⟨a, ha, n, hn⟩ := h
      exact ⟨n, a, ha, hn⟩
  | optional item _ =>
      rcases h with rfl | ⟨n, hn⟩
      · exact ⟨0, .inl rfl⟩
      · exact ⟨n, .inr hn⟩
  | loop item r =>
      obtain ⟨us, hcount, hus, rfl⟩ := h
      obtain ⟨n, hn⟩ := exists_derivesIn_all hus
      exact ⟨n, us, hcount, hn, rfl⟩
  | separated item separator _ r =>
      obtain ⟨us, vs, hcount, hlength, hus, hvs, rfl⟩ := h
      obtain ⟨m, hm⟩ := exists_derivesIn_all hus
      obtain ⟨n, hn⟩ := exists_derivesIn_all hvs
      exact ⟨max m n, us, vs, hcount, hlength, fun u hu => (hm u hu).mono (Nat.le_max_left m n),
        fun v hv => (hn v hv).mono (Nat.le_max_right m n), rfl⟩
  | «alias» target _ => exact h
  | forward target => exact h
  | withDefault _ target => exact h

/-- The languages of the definitions are what the rules ask for. -/
theorem derives_iff : g.Derives d w ↔ (g.rule d).Denotes g.engine g.Derives w := by
  constructor
  · rintro ⟨_ | n, hn⟩
    · exact absurd hn id
    · exact Rule.Denotes.mono (fun d _ w h => ⟨n, h⟩) hn
  · intro h
    obtain ⟨n, hn⟩ := exists_denotes_derivesIn h
    exact ⟨n + 1, hn⟩

/-- No languages smaller than those of the definitions are what the rules ask for. -/
theorem derives_least {L : DefId → Text → Prop} (hL : ∀ d w, (g.rule d).Denotes g.engine L w → L d w)
    (h : g.Derives d w) : L d w := by
  obtain ⟨n, hn⟩ := h
  induction n generalizing d w with
  | zero => exact absurd hn id
  | succ n ih => exact hL d w (Rule.Denotes.mono (fun d _ w => ih) hn)

theorem denotes_target {target : DefId} {e : Engine} {L : DefId → Text → Prop} {rule : Rule}
    (h : rule.target? = some target) : rule.Denotes e L w ↔ L target w := by
  cases rule <;> simp_all [Rule.target?, Rule.Denotes]

/-- What a definition stands for has the same texts, in no more steps. -/
theorem DerivesIn.target {target : DefId} (ht : (g.rule d).target? = some target)
    (h : g.DerivesIn n d w) : g.DerivesIn n target w := by
  cases n with
  | zero => exact absurd h id
  | succ n => exact ((denotes_target ht).1 h).succ

theorem Valid.derivesIn_resolve (hg : g.Valid) (h : g.DerivesIn n d w) :
    g.DerivesIn n (g.resolve d) w := by
  obtain ⟨fuel, hend⟩ := hg.chainEnd d
  revert hend
  generalize g.resolve d = e
  intro hend
  induction fuel generalizing d with
  | zero => simp [chainEnd?] at hend
  | succ fuel ih =>
      rw [chainEnd?] at hend
      split at hend
      · next target ht => exact ih (h.target ht) hend
      · cases hend
        exact h

/-- Indirections change nothing. -/
theorem Valid.derives_resolve (hg : g.Valid) : g.Derives (g.resolve d) w ↔ g.Derives d w := by
  constructor
  · intro h
    obtain ⟨fuel, hend⟩ := hg.chainEnd d
    revert hend h
    generalize g.resolve d = e
    intro h hend
    induction fuel generalizing d with
    | zero => simp [chainEnd?] at hend
    | succ fuel ih =>
        rw [chainEnd?] at hend
        split at hend
        · next target ht =>
          exact derives_iff.2 ((denotes_target ht).2 (ih hend))
        · cases hend
          exact h
  · rintro ⟨n, hn⟩
    exact ⟨n, hg.derivesIn_resolve hn⟩

/-- The texts of a definition are those of its structural rule. -/
theorem Valid.derives_iff_shape (hg : g.Valid) :
    g.Derives d w ↔ (g.shape d).Denotes g.engine g.Derives w := by
  rw [← hg.derives_resolve, derives_iff]
  rfl

/-! ### Patterns of definitions -/

/-- No pattern has a condition on a position. -/
def LookFree (g : Grammar) : Prop :=
  ∀ d source, g.rule d = .pattern source → g.engine.looks source = false

/-- The engine keeps its laws, and they cover every pattern of the grammar. -/
structure Regular (g : Grammar) : Prop where
  lawful : g.engine.Lawful
  lookFree : g.LookFree

/-- Every pattern in the template of a definition is the pattern of a rule, and every bound one of a
rule. -/
theorem wellformed_render {P : Text → Prop} {rule : DefId → Rule}
    (hpattern : ∀ d source, rule d = .pattern source → P source)
    (hbounds : ∀ d r, (rule d).repetition? = some r → ∀ m, r.max = some m → r.min ≤ m)
    (limit fuel : Nat) (entered : List DefId) (d : DefId) :
    (Template.render rule limit fuel entered d).Wellformed P := by
  induction fuel generalizing entered d with
  | zero => trivial
  | succ fuel ih =>
      rw [Template.render]
      split
      · trivial
      have hinner := ih (d :: entered)
      have hall : ∀ items : List DefId,
          Template.AllWellformed P (items.map (Template.render rule limit fuel (d :: entered))) := by
        intro items
        refine Template.allWellformed_iff.2 fun t ht => ?_
        obtain ⟨item, -, rfl⟩ := List.mem_map.1 ht
        exact hinner item
      have hbound := hbounds d
      dsimp only
      cases hrule : rule d with
      | literal text => trivial
      | pattern source => exact hpattern d source hrule
      | empty => trivial
      | sequence items => exact hall items
      | choice alternatives => exact hall alternatives
      | optional item quantifier => exact hinner item
      | loop item r => exact ⟨hbound r (by rw [hrule]; rfl), hinner item⟩
      | separated item separator _ r =>
          exact ⟨hbound r (by rw [hrule]; rfl), hinner item, hinner separator⟩
      | «alias» target _ => exact hinner target
      | forward target => exact hinner target
      | withDefault _ target => exact hinner target

/-- The laws of the engine cover the template of every definition. -/
theorem Valid.wellformed_template (hg : g.Valid) (hfree : g.LookFree) (d : DefId) :
    (g.template d).Wellformed g.engine.Plain := by
  refine wellformed_render (fun e source hrule => ?_) (fun e r hr m hm => ?_) _ _ [] d
  · obtain ⟨hread, isMatch, hleaf, -⟩ := hg.pattern e source hrule
    exact ⟨hread, Option.isSome_iff_exists.2 ⟨isMatch, hleaf⟩, hfree e source hrule⟩
  · exact (Repetition.bounds_of_isValid (hg.repetition e r hr) m hm).2

/-- **A definition that is written out matches what its rule denotes**, given what the definitions
that the rule mentions match. -/
theorem Valid.matches_render_iff (hg : g.Valid) {limit fuel : Nat} {entered : List DefId}
    (hopen : (g.rule d).isLeaf = true ∨ entered.count d < limit) :
    (Template.render g.rule limit (fuel + 1) entered d).Matches g.engine w ↔
      (g.rule d).Denotes g.engine
        (fun e => (Template.render g.rule limit fuel (d :: entered) e).Matches g.engine) w := by
  have hguard : (!(g.rule d).isLeaf && decide (limit ≤ entered.count d)) = false := by
    rcases hopen with hleaf | hcount
    · simp [hleaf]
    · simp [hcount]
  rw [Template.render, if_neg (by rw [hguard]; decide)]
  dsimp only
  cases hrule : g.rule d with
  | literal text => exact Iff.rfl
  | pattern source => exact Iff.rfl
  | empty => exact Iff.rfl
  | sequence items =>
      rw [Template.matches_sequence, List.map_map]
      rfl
  | choice alternatives =>
      rw [Template.matches_choice]
      simp only [List.mem_map, exists_exists_and_eq_and]
      rfl
  | optional item quantifier => exact Iff.rfl
  | loop item r =>
      rw [Template.Matches]
      simp only [Repeated, Rule.Denotes, Repetition.admits_iff, and_assoc]
  | separated item separator _ r =>
      have hbounds := Repetition.bounds_of_isValid (hg.repetition d r (by rw [hrule]; rfl))
      rw [Template.Matches, ← exists_interleave_iff fun m hm => (hbounds m hm).1]
      simp only [Rule.Denotes, Repetition.admits_iff, and_assoc]
  | «alias» target _ => exact Iff.rfl
  | forward target => exact Iff.rfl
  | withDefault _ target => exact Iff.rfl

/-- The pattern of a definition matches all of its texts, however deep it is written out. -/
theorem Valid.matches_render_of_derives (hg : g.Valid) (limit fuel : Nat) (entered : List DefId)
    (h : g.Derives d w) : (Template.render g.rule limit fuel entered d).Matches g.engine w := by
  induction fuel generalizing entered d w with
  | zero => trivial
  | succ fuel ih =>
      by_cases hopen : (g.rule d).isLeaf = true ∨ entered.count d < limit
      · refine (hg.matches_render_iff hopen).2 ?_
        exact Rule.Denotes.mono (fun e _ w hw => ih (d :: entered) hw) (derives_iff.1 h)
      · obtain ⟨hleaf, hcount⟩ := not_or.1 hopen
        rw [Template.render, if_pos (by simp [hleaf, Nat.not_lt.1 hcount])]
        trivial

theorem Valid.matches_template_of_derives (hg : g.Valid) (h : g.Derives d w) :
    (g.template d).Matches g.engine w :=
  hg.matches_render_of_derives _ _ [] h

/-! ### Matchers of a grammar -/

/-- A definition that does not exist is empty. -/
theorem rule_of_le (h : g.size ≤ d) : g.rule d = .empty := by
  simp [rule, Array.getD, size] at h ⊢
  omega

theorem lt_size_of_rule (h : g.rule d ≠ .empty) : d < g.size := by
  by_cases hd : d < g.size
  · exact hd
  · exact absurd (rule_of_le (Nat.not_lt.1 hd)) h

theorem rule_mem (hd : d < g.size) : g.rule d ∈ g.rules := by
  rw [rule, Array.getD_eq_getD_getElem?, Array.getElem?_eq_getElem hd, Option.getD_some]
  exact Array.getElem_mem hd

/-- Whether a pattern has a condition on a position is seen in the table of rules. -/
theorem lookFree_of_rules
    (h : ∀ source, .pattern source ∈ g.rules → g.engine.looks source = false) : g.LookFree := by
  intro d source hrule
  have hd : d < g.size := lt_size_of_rule (by simp [hrule])
  exact h source (hrule ▸ rule_mem hd)

/-- **The matcher of a definition rules out nothing that the definition denotes.** -/
theorem Valid.definition_admits (hg : g.Valid) (hreg : g.Regular) (d : DefId) :
    (g.acceptors.definition d).Admits (g.Derives d) := by
  rw [hg.definition_eq]
  split
  · exact (hreg.lawful.admits (hg.wellformed_template hreg.lookFree d)).mono
      fun w hw => hg.matches_template_of_derives hw
  · next hd =>
    refine (hreg.lawful.admits (t := .empty) trivial).mono fun w hw => ?_
    have hw := derives_iff.1 hw
    rwa [rule_of_le (Nat.not_lt.1 hd)] at hw

/-- The matcher of a tail is that of its template. -/
theorem Valid.tail_eq (hg : g.Valid) {t : Tail}
    (hd : t.place.1 < g.size)
    (hplace : (tailMatchers g.engine g.rule g.template t.place.1)[t.place.2]? =
      some (matcherOf g.engine fun _ => t.template g.rule g.template)) :
    g.acceptors.tail t = Matcher.ofPattern g.engine (t.template g.rule g.template).toText := by
  obtain ⟨leaves, hacceptors⟩ := hg.acceptors
  have hd : t.place.1 < g.rules.size := hd
  rw [hacceptors]
  simp only [Acceptors.ofRules]
  rw [getD_map_range, if_pos hd]
  show ((tailMatchers g.engine g.rule g.template t.place.1).getD t.place.2
    (emptyMatcher g.engine)).get = _
  rw [Array.getD_eq_getD_getElem?, hplace]
  rfl

section Tails

variable (hg : g.Valid) (hreg : g.Regular)
include hg hreg

/-- The matcher of the rest of a sequence rules out none of its texts. -/
theorem Valid.sequence_tail_admits {items : List DefId} (hrule : g.rule d = .sequence items)
    {next : Nat} (hnext : next ≤ items.length) :
    (g.acceptors.tail (.sequence d next)).Admits (InRow ((items.drop next).map g.Derives)) := by
  rw [hg.tail_eq (lt_size_of_rule (by simp [Tail.place, hrule]))
    (by simp [Tail.place, tailMatchers, hrule, Nat.lt_succ_of_le hnext])]
  simp only [Tail.template, hrule]
  have hall : Template.AllWellformed g.engine.Plain ((items.drop next).map g.template) := by
    refine Template.allWellformed_iff.2 fun t ht => ?_
    obtain ⟨item, -, rfl⟩ := List.mem_map.1 ht
    exact hg.wellformed_template hreg.lookFree item
  refine (hreg.lawful.admits (t := .sequence _) hall).mono fun w hw => ?_
  rw [Template.matches_sequence, List.map_map]
  refine InRow.mono ?_ hw
  rw [List.forall₂_map_left_iff, List.forall₂_map_right_iff]
  exact List.forall₂_same.2 fun item _ w hw => hg.matches_template_of_derives hw

/-- The matcher of further items of a loop rules out none of them. -/
theorem Valid.loop_tail_admits {item : DefId} {r : Repetition} (hrule : g.rule d = .loop item r) :
    (g.acceptors.tail (.loop d)).Admits (Repeated (g.Derives item) 0 none) := by
  rw [hg.tail_eq (lt_size_of_rule (by simp [Tail.place, hrule]))
    (by simp [Tail.place, tailMatchers, hrule])]
  simp only [Tail.template, hrule]
  refine (hreg.lawful.admits (t := .repeated _ 0 none false)
    ⟨fun _ _ => Nat.zero_le _, hg.wellformed_template hreg.lookFree item⟩).mono fun w hw => ?_
  rw [Template.Matches]
  exact hw.mono fun w hw => hg.matches_template_of_derives hw

variable {item separator : DefId} {default : Option Text} {r : Repetition}

omit hreg in
/-- Texts of a separator and an item are matched by their templates in a row. -/
theorem Valid.matches_pair (h : InRow [g.Derives separator, g.Derives item] w) :
    InRow [(g.template separator).Matches g.engine, (g.template item).Matches g.engine] w :=
  h.mono (.cons (fun _ hw => hg.matches_template_of_derives hw)
    (.cons (fun _ hw => hg.matches_template_of_derives hw) .nil))

/-- The matcher of what follows an item of a separated loop rules out no separators and items. -/
theorem Valid.afterItem_tail_admits (hrule : g.rule d = .separated item separator default r) :
    (g.acceptors.tail (.afterItem d)).Admits
      (Repeated (InRow [g.Derives separator, g.Derives item]) 0 none) := by
  rw [hg.tail_eq (lt_size_of_rule (by simp [Tail.place, hrule]))
    (by simp [Tail.place, tailMatchers, hrule])]
  simp only [Tail.template, hrule]
  refine (hreg.lawful.admits (t := .repeated (.sequence [_, _]) 0 none false)
    ⟨fun _ _ => Nat.zero_le _, hg.wellformed_template hreg.lookFree separator,
      hg.wellformed_template hreg.lookFree item, trivial⟩).mono fun w hw => ?_
  rw [Template.Matches]
  refine hw.mono fun u hu => ?_
  rw [Template.matches_sequence]
  exact hg.matches_pair hu

/-- The matcher of what follows a separator rules out no items. -/
theorem Valid.afterSeparator_tail_admits (hrule : g.rule d = .separated item separator default r) :
    (g.acceptors.tail (.afterSeparator d)).Admits (InRow [g.Derives item,
      Repeated (InRow [g.Derives separator, g.Derives item]) 0 none]) := by
  rw [hg.tail_eq (lt_size_of_rule (by simp [Tail.place, hrule]))
    (by simp [Tail.place, tailMatchers, hrule])]
  simp only [Tail.template, hrule]
  refine (hreg.lawful.admits (t := .separated _ _ 1 none false)
    ⟨fun _ hm => (by cases hm), hg.wellformed_template hreg.lookFree item,
      hg.wellformed_template hreg.lookFree separator⟩).mono fun w hw => ?_
  rw [Template.Matches]
  refine .inr (hw.mono (.cons ?_ (.cons ?_ .nil)))
  · exact fun u hu => hg.matches_template_of_derives hu
  · exact fun u hu => Repeated.mono (fun v hv => hg.matches_pair hv) hu

end Tails

end Grammar

/-- The only pattern of the rows is a letter. -/
theorem rowGrammar_lookFree : rowGrammar.LookFree := by
  apply Grammar.lookFree_of_rules
  intro source hsource
  obtain rfl : source = ['a'] := by simpa [rowGrammar, rowRules] using hsource
  with_unfolding_all rfl

end Tessera
