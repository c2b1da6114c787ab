/-
**How long the pattern of a definition is.**

A definition that leads back to itself is written out again and again, until it was entered as often as
the depth allows.  The length of a pattern is that of its own signs and of the patterns that it is put
together from, so it depends on how often definitions that lead to such a cycle are written out.

Where every definition on a cycle mentions a single one that leads to a cycle, the definitions that are
written out lie in a row, and the row is as long as the depth allows.  Everything beside the row ends
after a bounded number of steps.  Hence the length is bounded by a multiple of the depth.

Main definitions:

* `Tessera.Rule.written` — the definitions that a rule writes out, as often as it does;
* `Tessera.Grammar.regexAt` — the pattern of a definition at some depth;
* `Tessera.Grammar.Recurs`, `Tessera.Grammar.Cyclic` — definitions on cycles, and those that lead there;
* `Tessera.Grammar.Forks` — a definition on a cycle that writes out two which lead to cycles.

Main results:

* `Tessera.Rule.length_template` — the length of a pattern that is put together from others;
* `Tessera.Grammar.Valid.within_of_not_forks` — **without forks the length is bounded by a multiple of
  the depth**.
-/

import Mathlib.Algebra.Order.BigOperators.Group.List
import Mathlib.Data.Finset.Filter
import Mathlib.Data.List.Perm.Subperm
import Tessera.Proofs.Search.Recognition

set_option autoImplicit false

namespace Tessera

/-! ### Lengths of templates -/

namespace Rule

/-- The template of a rule, given the templates of the definitions that it mentions. -/
def template (inner : DefId → Template) : Rule → Template
  | .literal text => .literal text
  | .pattern source => .pattern source
  | .empty => .empty
  | .sequence items => .sequence (items.map inner)
  | .choice alternatives => .choice (alternatives.map inner)
  | .optional item quantifier => .optional (inner item) (quantifier == .lazy)
  | .loop item r => .repeated (inner item) r.min r.max (r.quantifier == .lazy)
  | .separated item separator _ r =>
      .separated (inner item) (inner separator) r.min r.max (r.quantifier == .lazy)
  | .alias target _ => inner target
  | .forward target => inner target
  | .withDefault _ target => inner target

/-- The definitions that a rule writes out, as often as it does: a separated loop writes its item
twice. -/
def written : Rule → List DefId
  | .separated item separator _ _ => [item, separator, item]
  | r => r.references

theorem mem_written {r : Rule} {d : DefId} : d ∈ r.written ↔ d ∈ r.references := by
  cases r with
  | separated item separator default repetition =>
      simp only [written, references, List.mem_cons, List.not_mem_nil, or_false]
      tauto
  | _ => exact Iff.rfl

/-- The length of the signs that a rule puts around and between what it mentions. -/
def ownLength (r : Rule) : Nat := (r.template fun _ => .empty).toText.length

end Rule

namespace Template

theorem length_group (inner : Text) : (group inner).length = inner.length + 4 := by
  simp [group]

theorem length_joined (inner : DefId → Template) (items : List DefId) :
    (joined (items.map inner)).length =
      4 * items.length + (items.map fun d => (inner d).toText.length).sum := by
  induction items with
  | nil => rfl
  | cons item items ih =>
      simp only [List.map_cons, joined, List.length_append, length_group, ih, List.length_cons,
        List.sum_cons]
      omega

theorem length_barred (inner : DefId → Template) (items : List DefId) :
    (barred (items.map inner)).length =
      5 * items.length + (items.map fun d => (inner d).toText.length).sum := by
  induction items with
  | nil => rfl
  | cons item items ih =>
      simp only [List.map_cons, barred, List.cons_append, List.length_cons, List.length_append,
        length_group, ih, List.sum_cons]
      omega

theorem render_succ (rule : DefId → Rule) (limit fuel : Nat) (entered : List DefId) (d : DefId) :
    render rule limit (fuel + 1) entered d =
      if !(rule d).isLeaf && decide (limit ≤ entered.count d) then .anything
      else (rule d).template (render rule limit fuel (d :: entered)) := by
  rw [render]
  cases rule d <;> rfl

end Template

open Template in
/-- **The length of a pattern that is put together from others.** -/
theorem Rule.length_template (r : Rule) (inner : DefId → Template) :
    (r.template inner).toText.length =
      r.ownLength + (r.written.map fun d => (inner d).toText.length).sum := by
  have hempty : ∀ ds : List DefId, (ds.map fun _ => 0).sum = 0 := fun ds => by simp
  rw [ownLength]
  cases r with
  | literal text => rfl
  | pattern source => rfl
  | empty => rfl
  | sequence items =>
      simp only [template, toText, length_joined, written, references, List.length_nil, hempty,
        Nat.add_zero]
  | choice alternatives =>
      cases alternatives with
      | nil => rfl
      | cons a as =>
          simp only [template, toText, List.length_append, length_group, length_barred, written,
            references, List.map_cons, List.sum_cons, hempty, List.length_nil]
          omega
  | optional item quantifier =>
      simp only [template, toText, List.length_append, length_group, written, references,
        List.map_cons, List.map_nil, List.sum_cons, List.sum_nil, List.length_nil]
      omega
  | loop item r =>
      simp only [template, toText, repeatedText, List.length_append, length_group, written,
        references, List.map_cons, List.map_nil, List.sum_cons, List.sum_nil, List.length_nil]
      omega
  | separated item separator default r =>
      simp only [template, toText, separatedText, repeatedText, written, List.map_cons,
        List.map_nil, List.sum_cons, List.sum_nil]
      split <;> simp only [List.length_append, length_group, List.length_nil] <;> omega
  | «alias» target name => simp [template, written, references, toText]
  | forward target => simp [template, written, references, toText]
  | withDefault content target => simp [template, written, references, toText]

/-! ### Patterns at some depth -/

namespace Grammar

/-- The pattern of a definition in which every definition is entered at most `depth` times. -/
def regexAt (g : Grammar) (depth : Nat) (d : DefId) : Text :=
  (Template.ofDefinition g.rule g.size depth d).toText

/-- The length of the pattern of a definition that is written out inside of others. -/
def lengthIn (g : Grammar) (limit fuel : Nat) (entered : List DefId) (d : DefId) : Nat :=
  (Template.render g.rule limit fuel entered d).toText.length

section Lengths

variable (g : Grammar) (limit fuel : Nat) (entered : List DefId) (d : DefId)

/-- The length of the pattern of a definition that may be entered. -/
theorem lengthIn_succ (h : (g.rule d).isLeaf = true ∨ entered.count d < limit) :
    g.lengthIn limit (fuel + 1) entered d =
      (g.rule d).ownLength + ((g.rule d).written.map (g.lengthIn limit fuel (d :: entered))).sum := by
  have hguard : ¬ (!(g.rule d).isLeaf && decide (limit ≤ entered.count d)) = true := by
    rcases h with hleaf | hcount
    · simp [hleaf]
    · simp [hcount]
  rw [lengthIn, Template.render_succ, if_neg hguard, Rule.length_template]
  rfl

/-- A definition that may not be entered is seven signs long. -/
theorem lengthIn_succ_le :
    g.lengthIn limit (fuel + 1) entered d ≤ 7 + (g.rule d).ownLength +
      ((g.rule d).written.map (g.lengthIn limit fuel (d :: entered))).sum := by
  by_cases h : (g.rule d).isLeaf = true ∨ entered.count d < limit
  · rw [lengthIn_succ g limit fuel entered d h]
    omega
  · obtain ⟨hleaf, hcount⟩ := not_or.1 h
    have hwildcard : g.lengthIn limit (fuel + 1) entered d = 7 := by
      rw [lengthIn, Template.render_succ, if_pos (by simp [hleaf, Nat.not_lt.1 hcount])]
      rfl
    omega

end Lengths

/-! ### Cycles -/

variable {g : Grammar} {d e : DefId}

/-- The definition leads back to itself. -/
def Recurs (g : Grammar) (d : DefId) : Prop := Relation.TransGen g.Mentions d d

/-- The definition leads to one that leads back to itself. -/
def Cyclic (g : Grammar) (d : DefId) : Prop := ∃ e, Relation.ReflTransGen g.Mentions d e ∧ g.Recurs e

/-- The definition leads back to itself, and it writes out two definitions, or one of them twice, that
lead to definitions which do. -/
def Forks (g : Grammar) (d : DefId) : Prop :=
  g.Recurs d ∧ ∃ a b, List.Subperm [a, b] (g.rule d).written ∧ g.Cyclic a ∧ g.Cyclic b

theorem Recurs.cyclic (h : g.Recurs d) : g.Cyclic d := ⟨d, .refl, h⟩

theorem Cyclic.of_mentions (hde : g.Mentions d e) (h : g.Cyclic e) : g.Cyclic d := by
  obtain ⟨f, hef, hf⟩ := h
  exact ⟨f, .head hde hef, hf⟩

/-- A definition on a cycle mentions one that leads back to it. -/
theorem Recurs.exists_mentions (h : g.Recurs d) :
    ∃ e, g.Mentions d e ∧ Relation.ReflTransGen g.Mentions e d := by
  obtain ⟨e, hde, hed⟩ := Relation.TransGen.head'_iff.1 h
  exact ⟨e, hde, hed⟩

/-- A definition that is mentioned on a cycle and leads back lies on the cycle. -/
theorem recurs_of_mentions (hde : g.Mentions d e) (hed : Relation.ReflTransGen g.Mentions e d) :
    g.Recurs e := .tail' hed hde

/-- Two different members stand beside each other. -/
theorem subperm_of_mem_of_ne {α : Type} {a b : α} {l : List α} (ha : a ∈ l) (hb : b ∈ l)
    (hne : a ≠ b) : List.Subperm [a, b] l := by
  have hnodup : [a, b].Nodup := by simp [hne]
  exact hnodup.subperm fun x hx => by
    rcases List.mem_cons.1 hx with rfl | hx
    · exact ha
    · exact List.mem_singleton.1 hx ▸ hb

/-- What a definition on a cycle without forks mentions lies on the cycle, too, or leads to none. -/
theorem Recurs.of_cyclic_mention (hd : g.Recurs d) (hforks : ¬ g.Forks d) (hde : g.Mentions d e)
    (he : g.Cyclic e) : g.Recurs e := by
  obtain ⟨x, hdx, hxd⟩ := hd.exists_mentions
  by_cases hex : e = x
  · subst hex
    exact recurs_of_mentions hde hxd
  · have hx : g.Cyclic x := ⟨d, hxd, hd⟩
    exact absurd ⟨hd, e, x, subperm_of_mem_of_ne (Rule.mem_written.2 hde) (Rule.mem_written.2 hdx)
      hex, he, hx⟩ hforks

open Classical in
/-- The definitions of the table that a definition leads to. -/
noncomputable def reached (g : Grammar) (d : DefId) : Finset DefId :=
  (Finset.range g.size).filter (Relation.TransGen g.Mentions d)

theorem mem_reached : e ∈ g.reached d ↔ e < g.size ∧ Relation.TransGen g.Mentions d e := by
  simp [reached]

/-- From a definition that does not lead back to itself, fewer and fewer definitions can be reached. -/
theorem Valid.card_reached_lt (hg : g.Valid) (hde : g.Mentions d e) (he : ¬ g.Recurs e) :
    (g.reached e).card < (g.reached d).card := by
  refine Finset.card_lt_card ⟨fun x hx => ?_, fun hsub => ?_⟩
  · obtain ⟨hlt, hex⟩ := mem_reached.1 hx
    exact mem_reached.2 ⟨hlt, .head hde hex⟩
  · have hmem : e ∈ g.reached d := mem_reached.2 ⟨hg.references d e hde, .single hde⟩
    exact he (mem_reached.1 (hsub hmem)).2

/-- What holds of the definitions on cycles, and of a definition when it holds of those that it
mentions, holds of all definitions. -/
theorem Valid.induction_on_mentions (hg : g.Valid) {P : DefId → Prop}
    (hrecurs : ∀ d, g.Recurs d → P d) (hmentions : ∀ d, (∀ e, g.Mentions d e → P e) → P d)
    (d : DefId) : P d := by
  induction hn : (g.reached d).card using Nat.strong_induction_on generalizing d with
  | _ n ih =>
      refine hmentions d fun e hde => ?_
      by_cases he : g.Recurs e
      · exact hrecurs e he
      · exact ih _ (hn ▸ hg.card_reached_lt hde he) e rfl

/-! ### Bounds -/

/-- The length is bounded by a multiple of a function of the fuel. -/
def Within (g : Grammar) (bound : Nat → Nat) (d : DefId) : Prop :=
  ∃ c, ∀ limit fuel entered, g.lengthIn limit fuel entered d ≤ c * bound fuel

section Bounds

variable {bound : Nat → Nat} (hmono : Monotone bound) (hpos : ∀ fuel, 1 ≤ bound fuel)

/-- The bounds of several definitions add up. -/
theorem exists_sum_le {ds : List DefId} (h : ∀ e ∈ ds, g.Within bound e) :
    ∃ c, ∀ limit fuel entered, (ds.map (g.lengthIn limit fuel entered)).sum ≤ c * bound fuel := by
  induction ds with
  | nil => exact ⟨0, fun _ _ _ => Nat.zero_le _⟩
  | cons d ds ih =>
      obtain ⟨hd, hds⟩ := List.forall_mem_cons.1 h
      obtain ⟨c, hc⟩ := hd
      obtain ⟨c', hc'⟩ := ih hds
      refine ⟨c + c', fun limit fuel entered => ?_⟩
      rw [List.map_cons, List.sum_cons, Nat.add_mul]
      exact Nat.add_le_add (hc limit fuel entered) (hc' limit fuel entered)

include hmono hpos in
/-- A definition is bounded when those that it mentions are. -/
theorem Within.of_mentions (h : ∀ e, g.Mentions d e → g.Within bound e) : g.Within bound d := by
  obtain ⟨c, hc⟩ := exists_sum_le fun e he => h e (Rule.mem_written.1 he)
  refine ⟨7 + (g.rule d).ownLength + c, fun limit fuel entered => ?_⟩
  cases fuel with
  | zero =>
      have hconst : 7 ≤ 7 + (g.rule d).ownLength + c := by omega
      exact hconst.trans (Nat.le_mul_of_pos_right _ (hpos 0))
  | succ fuel =>
      calc g.lengthIn limit (fuel + 1) entered d
          ≤ 7 + (g.rule d).ownLength +
              ((g.rule d).written.map (g.lengthIn limit fuel (d :: entered))).sum :=
            lengthIn_succ_le g limit fuel entered d
        _ ≤ (7 + (g.rule d).ownLength) * bound (fuel + 1) + c * bound (fuel + 1) :=
            Nat.add_le_add (Nat.le_mul_of_pos_right _ (hpos _))
              ((hc limit fuel _).trans (Nat.mul_le_mul_left c (hmono (Nat.le_succ fuel))))
        _ = (7 + (g.rule d).ownLength + c) * bound (fuel + 1) := (Nat.add_mul ..).symm

end Bounds

/-- **A definition that leads to no cycle has a pattern of bounded length.** -/
theorem Valid.within_of_not_cyclic (hg : g.Valid) (hd : ¬ g.Cyclic d) : g.Within (fun _ => 1) d := by
  induction d using hg.induction_on_mentions with
  | hrecurs d hrecurs => exact absurd hrecurs.cyclic hd
  | hmentions d ih =>
      exact .of_mentions monotone_const (fun _ => Nat.le_refl 1) fun e hde =>
        ih e hde fun he => hd (he.of_mentions hde)

/-- What has a bound for every definition of the table has one for all of them. -/
theorem exists_common_bound {P : Nat → Nat → Prop} (hmono : ∀ d c c', c ≤ c' → P d c → P d c')
    (n : Nat) (h : ∀ d, d < n → ∃ c, P d c) : ∃ c, ∀ d, d < n → P d c := by
  induction n with
  | zero => exact ⟨0, fun d hd => absurd hd (Nat.not_lt_zero d)⟩
  | succ n ih =>
      obtain ⟨c, hc⟩ := ih fun d hd => h d (Nat.lt_succ_of_lt hd)
      obtain ⟨c', hc'⟩ := h n (Nat.lt_succ_self n)
      refine ⟨max c c', fun d hd => ?_⟩
      rcases Nat.lt_succ_iff_lt_or_eq.1 hd with hd | rfl
      · exact hmono d c _ (le_max_left c c') (hc d hd)
      · exact hmono d c' _ (le_max_right c c') hc'

/-- The sum over a list with at most one member of some kind. -/
theorem sum_le_of_single {α : Type} {P : α → Prop} {f : α → Nat} {c bound : Nat} {l : List α}
    (hsmall : ∀ x ∈ l, ¬ P x → f x ≤ c) (hlarge : ∀ x ∈ l, P x → f x ≤ bound)
    (hsingle : ∀ a b, List.Subperm [a, b] l → P a → ¬ P b) :
    (l.map f).sum ≤ l.length * c + bound := by
  induction l with
  | nil => simp
  | cons x l ih =>
      obtain ⟨hx, hsmall⟩ := List.forall_mem_cons.1 hsmall
      obtain ⟨hx', hlarge⟩ := List.forall_mem_cons.1 hlarge
      rw [List.map_cons, List.sum_cons, List.length_cons, Nat.succ_mul]
      by_cases hP : P x
      · -- no other member is of the kind
        have hrest : ∀ y ∈ l.map f, y ≤ c := by
          intro y hy
          obtain ⟨a, ha, rfl⟩ := List.mem_map.1 hy
          have hpair : List.Subperm [x, a] (x :: l) :=
            (List.subperm_cons x).2 (List.singleton_subperm_iff.2 ha)
          exact hsmall a ha (hsingle x a hpair hP)
        have hsum : (l.map f).sum ≤ (l.map f).length * c := List.sum_le_card_nsmul _ c hrest
        rw [List.length_map] at hsum
        have := hx' hP
        omega
      · have := hx hP
        have := ih hsmall hlarge fun a b h =>
          hsingle a b (h.trans (List.sublist_cons_self x l).subperm)
        omega

/-- **On cycles without forks the length is bounded by a multiple of the fuel.** -/
theorem Valid.within_of_recurs (hg : g.Valid) (hd : g.Recurs d)
    (hforks : ∀ e, Relation.ReflTransGen g.Mentions d e → ¬ g.Forks e) :
    g.Within (fun fuel => fuel + 1) d := by
  -- one bound for everything beside the row
  obtain ⟨c, hc⟩ : ∃ c, ∀ d, d < g.size →
      (¬ g.Cyclic d → ∀ limit fuel entered, g.lengthIn limit fuel entered d ≤ c) ∧
        (g.rule d).ownLength ≤ c ∧ (g.rule d).written.length ≤ c := by
    refine exists_common_bound (fun d c c' hle h => ?_) g.size fun d _ => ?_
    · exact ⟨fun hd limit fuel entered => (h.1 hd limit fuel entered).trans hle, h.2.1.trans hle,
        h.2.2.trans hle⟩
    · by_cases hcyclic : g.Cyclic d
      · exact ⟨(g.rule d).ownLength + (g.rule d).written.length, fun h => absurd hcyclic h,
          Nat.le_add_right .., Nat.le_add_left ..⟩
      · obtain ⟨c, hc⟩ := hg.within_of_not_cyclic hcyclic
        refine ⟨c + (g.rule d).ownLength + (g.rule d).written.length, fun _ limit fuel entered => ?_,
          by omega, by omega⟩
        have hle : g.lengthIn limit fuel entered d ≤ c := by
          simpa using hc limit fuel entered
        omega
  refine ⟨7 + c + c * c, fun limit fuel entered => ?_⟩
  induction fuel generalizing d entered with
  | zero =>
      have hconst : 7 ≤ 7 + c + c * c := by omega
      exact hconst.trans (Nat.le_mul_of_pos_right _ (Nat.succ_pos 0))
  | succ fuel ih =>
      have hlt : d < g.size := by
        obtain ⟨e, -, hed⟩ := Relation.TransGen.tail'_iff.1 hd
        exact hg.references e d hed
      obtain ⟨-, hown, hlength⟩ := hc d hlt
      have hsum : ((g.rule d).written.map (g.lengthIn limit fuel (d :: entered))).sum ≤
          (g.rule d).written.length * c + (7 + c + c * c) * (fuel + 1) := by
        refine sum_le_of_single (P := g.Cyclic) (fun e he hcyclic => ?_) (fun e he hcyclic => ?_)
          fun a b hpair ha hb => hforks d .refl ⟨hd, a, b, hpair, ha, hb⟩
        · exact (hc e (hg.references d e (Rule.mem_written.1 he))).1 hcyclic _ _ _
        · have hde : g.Mentions d e := Rule.mem_written.1 he
          exact ih (hd.of_cyclic_mention (hforks d .refl) hde hcyclic)
            (fun f hef => hforks f (.head hde hef)) _
      have hbeside : (g.rule d).written.length * c ≤ c * c := Nat.mul_le_mul_right c hlength
      have hstep := lengthIn_succ_le g limit fuel entered d
      rw [Nat.mul_succ]
      omega

/-- **Without forks the length is bounded by a multiple of the fuel.** -/
theorem Valid.within_of_not_forks (hg : g.Valid)
    (hforks : ∀ e, Relation.ReflTransGen g.Mentions d e → ¬ g.Forks e) :
    g.Within (fun fuel => fuel + 1) d := by
  induction d using hg.induction_on_mentions with
  | hrecurs d hrecurs => exact hg.within_of_recurs hrecurs hforks
  | hmentions d ih =>
      exact .of_mentions (fun _ _ h => Nat.succ_le_succ h) (fun fuel => Nat.succ_pos fuel)
        fun e hde => ih e hde fun f hef => hforks f (.head hde hef)

/-- Without forks the length is bounded by a multiple of the depth. -/
theorem Valid.exists_length_regexAt_le (hg : g.Valid)
    (hforks : ∀ e, Relation.ReflTransGen g.Mentions d e → ¬ g.Forks e) :
    ∃ c, ∀ depth, 1 ≤ depth → (g.regexAt depth d).length ≤ c * depth := by
  obtain ⟨c, hc⟩ := hg.within_of_not_forks hforks
  refine ⟨c * (g.size + 3), fun depth hdepth => ?_⟩
  calc (g.regexAt depth d).length
      ≤ c * (depth * g.size + 2 + 1) := hc depth _ []
    _ ≤ c * ((g.size + 3) * depth) := by
        refine Nat.mul_le_mul_left c ?_
        rw [Nat.add_mul, Nat.mul_comm depth]
        omega
    _ = c * (g.size + 3) * depth := (Nat.mul_assoc ..).symm

end Grammar

end Tessera
