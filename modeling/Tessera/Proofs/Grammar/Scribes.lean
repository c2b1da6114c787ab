/-
**Counters that are put back.**

A scribe leaves each definition that it enters, so every call puts the counters back as they were.  It
enters a definition only below the limit, and inside of the definition one entry less is left; the
entries that are left, added up over all definitions that mention others, go down with each nested call.
So they bound the nesting, whatever cycles there are, and every call comes to an end.

As the counters are what they were before, what is written out does not depend on what was written out
earlier: the pattern of a definition is always the same, and it is the one that its template gives.

Main definitions:

* `Tessera.Scribe.Gives` — work that gives a result and puts the counters back;
* `Tessera.composites` — the definitions that are not leaves;
* `Tessera.Scribe.entriesLeft` — how often definitions may still be entered;
* `Tessera.Scribe.Within` — counters within the limit.

Main results:

* `Tessera.Scribe.write_gives` — **a call gives the pattern of its template and puts the counters back**;
* `Tessera.Scribe.write_restores` — writing out ends, within the limits, and without a trace.
-/

import Mathlib.Algebra.Order.BigOperators.Group.Finset
import Tessera.Grammar.Scribe
import Tessera.Proofs.Grammar.Lengths
import Tessera.Proofs.Grammar.Templates

set_option autoImplicit false

namespace Tessera

/-- A leaf mentions nothing. -/
theorem Rule.references_eq_nil {r : Rule} (h : r.isLeaf = true) : r.references = [] := by
  cases r <;> simp_all [isLeaf, references]

/-- The definitions of a table that are not leaves. -/
def composites (rules : Array Rule) : Finset DefId :=
  (Finset.range rules.size).filter fun d => (ruleOf rules d).isLeaf = false

theorem mem_composites {rules : Array Rule} {d : DefId} :
    d ∈ composites rules ↔ d < rules.size ∧ (ruleOf rules d).isLeaf = false := by
  rw [composites, Finset.mem_filter, Finset.mem_range]

namespace Scribe

/-! ### Work that puts the counters back -/

section Gives

variable {α β : Type} {Q R : Array Nat → Prop} {k : Array Nat} {p : Work α} {x : α} {d : DefId}
  {n : Nat}

/-- From all scribes with the counters `k`, some work gives `x` and puts the counters back; whatever they
are in between satisfies `Q`. -/
def Gives (Q : Array Nat → Prop) (k : Array Nat) (p : Work α) (x : α) : Prop :=
  ∀ record, ∃ added, p ⟨k, record⟩ = some (x, ⟨k, added ++ record⟩) ∧ ∀ m ∈ added, Q m

namespace Gives

theorem pure (x : α) : Gives Q k (Pure.pure x) x :=
  fun _ => ⟨[], rfl, List.forall_mem_nil _⟩

theorem bind {f : α → Work β} {y : β} (h : Gives Q k p x) (hf : Gives Q k (f x) y) :
    Gives Q k (p >>= f) y := by
  intro record
  obtain ⟨added, hp, hadded⟩ := h record
  obtain ⟨added', hf, hadded'⟩ := hf (added ++ record)
  refine ⟨added' ++ added, ?_, List.forall_mem_append.2 ⟨hadded', hadded⟩⟩
  change (p ⟨k, record⟩).bind (fun r => f r.1 r.2) = _
  rw [hp, List.append_assoc]
  exact hf

/-- The result of some work, changed. -/
theorem map (f : α → β) (h : Gives Q k p x) : Gives Q k (do return f (← p)) (f x) :=
  h.bind (pure _)

theorem mapM {as : List β} {f : β → Work α} {g : β → α} (h : ∀ a ∈ as, Gives Q k (f a) (g a)) :
    Gives Q k (as.mapM f) (as.map g) := by
  induction as with
  | nil => exact pure []
  | cons a as ih =>
      obtain ⟨ha, has⟩ := List.forall_mem_cons.1 h
      rw [List.mapM_cons]
      exact ha.bind ((ih has).map _)

theorem mono (hQR : ∀ m, Q m → R m) (h : Gives Q k p x) : Gives R k p x := by
  intro record
  obtain ⟨added, hp, hadded⟩ := h record
  exact ⟨added, hp, fun m hm => hQR m (hadded m hm)⟩

/-- What must be there is there. -/
theorem demand {o : Option β} {b : β} {f : β → Work α} (ho : o = some b) (h : Gives Q k (f b) x) :
    Gives Q k (Scribe.demand o >>= f) x := by
  subst ho
  exact h

/-- A counter is looked up. -/
theorem count {f : Nat → Work α} (hk : k[d]? = some n) (h : Gives Q k (f n) x) :
    Gives Q k (Scribe.count d >>= f) x := by
  intro record
  have hcount : Scribe.count d ⟨k, record⟩ = some (n, ⟨k, record⟩) := by rw [Scribe.count, hk]; rfl
  obtain ⟨added, hf, hadded⟩ := h record
  refine ⟨added, ?_, hadded⟩
  change (Scribe.count d ⟨k, record⟩).bind (fun r => f r.1 r.2) = _
  rw [hcount]
  exact hf

/-- A definition that is entered and left again has its counter back. -/
theorem around (hk : k[d]? = some n) (hQ : Q k) (hQ' : Q (k.setIfInBounds d (n + 1)))
    (h : Gives Q (k.setIfInBounds d (n + 1)) p x) :
    Gives Q k (do enter d; let a ← p; leave d; return a) x := by
  intro record
  obtain ⟨added, hp, hadded⟩ := h (k.setIfInBounds d (n + 1) :: record)
  obtain ⟨hlt, hget⟩ := Array.getElem?_eq_some_iff.1 hk
  have henter : enter d ⟨k, record⟩ =
      some ((), ⟨k.setIfInBounds d (n + 1), k.setIfInBounds d (n + 1) :: record⟩) := by
    rw [enter, hk]
    rfl
  have hback : (k.setIfInBounds d (n + 1)).setIfInBounds d n = k := by
    refine Array.ext_getElem? fun i => ?_
    rw [Array.getElem?_setIfInBounds, Array.getElem?_setIfInBounds]
    by_cases hi : d = i
    · subst hi
      simp [hlt, hget]
    · simp [hi]
  have hleave : ∀ record', leave d ⟨k.setIfInBounds d (n + 1), record'⟩ =
      some ((), ⟨k, k :: record'⟩) := by
    intro record'
    have hcounter : (k.setIfInBounds d (n + 1))[d]? = some (n + 1) :=
      Array.getElem?_setIfInBounds_self_of_lt hlt
    simp only [leave, hcounter, put, hback]
  refine ⟨k :: (added ++ [k.setIfInBounds d (n + 1)]), ?_, ?_⟩
  · change (enter d ⟨k, record⟩).bind (fun r => (p r.2).bind fun r' =>
      (leave d r'.2).bind fun r'' => some (r'.1, r''.2)) = _
    simp only [henter, Option.bind_some, hp, hleave, List.append_assoc, List.cons_append,
      List.nil_append]
  · simp only [List.mem_cons, List.mem_append, List.not_mem_nil, or_false]
    rintro m (rfl | hm | rfl)
    · exact hQ
    · exact hadded m hm
    · exact hQ'

end Gives

end Gives

/-! ### Rules -/

/-- Alternatives with bars between them. -/
theorem intercalate_groups (t : DefId → Template) (first : DefId) (others : List DefId) :
    ['|'].intercalate ((first :: others).map fun d => Template.group (t d).toText) =
      (Template.choice ((first :: others).map t)).toText := by
  induction others generalizing first with
  | nil => simp [List.intercalate, Template.toText, Template.barred]
  | cons second others ih =>
      have hrest := ih second
      simp only [List.map_cons, Template.toText, Template.barred, List.intercalate,
        List.intersperse_cons_cons, List.flatten_cons] at hrest ⊢
      rw [hrest]
      rfl

/-- **A rule is written out as its template says**, if the definitions that it mentions are. -/
theorem writeRule_gives {Q : Array Nat → Prop} {k : Array Nat} {inner : DefId → Work Text}
    {t : DefId → Template} {r : Rule} (h : ∀ e ∈ r.references, Gives Q k (inner e) (t e).toText) :
    Gives Q k (writeRule inner r) (r.template t).toText := by
  cases r with
  | literal text => exact .pure _
  | pattern source => exact .pure _
  | empty => exact .pure _
  | sequence items =>
      have hitems := Gives.mapM (g := fun e => Template.group (t e).toText) fun e he =>
        (h e he).map Template.group
      have hjoined : (Template.sequence (items.map t)).toText =
          (items.map fun e => Template.group (t e).toText).flatten := by
        rw [Template.toText, Template.joined_eq, List.map_map]
        rfl
      rw [Rule.template, hjoined]
      exact hitems.map List.flatten
  | choice alternatives =>
      cases alternatives with
      | nil => exact .pure _
      | cons first others =>
          have halternatives := Gives.mapM (g := fun e => Template.group (t e).toText) fun e he =>
            (h e he).map Template.group
          rw [Rule.template, ← intercalate_groups]
          exact halternatives.map _
  | optional item quantifier => exact (h item List.mem_cons_self).map _
  | loop item r => exact (h item List.mem_cons_self).map _
  | separated item separator default r =>
      have hseparator := h separator (List.mem_cons_of_mem _ List.mem_cons_self)
      exact (h item List.mem_cons_self).bind (hseparator.map _)
  | «alias» target name => exact h target List.mem_cons_self
  | forward target => exact h target List.mem_cons_self
  | withDefault content target => exact h target List.mem_cons_self

/-! ### Entries that are left -/

section Entries

variable {rules : Array Rule} {limit n : Nat} {k m : Array Nat} {d e : DefId}

/-- How often definitions may still be entered, those aside that are leaves. -/
def entriesLeft (rules : Array Rule) (limit : Nat) (k : Array Nat) : Nat :=
  ∑ d ∈ composites rules, (limit - k.getD d 0)

theorem entriesLeft_le (rules : Array Rule) (limit : Nat) (k : Array Nat) :
    entriesLeft rules limit k ≤ limit * (composites rules).card := by
  rw [Nat.mul_comm]
  exact Finset.sum_le_card_nsmul _ _ _ fun d _ => Nat.sub_le ..

theorem getD_of_getElem? (hk : k[d]? = some n) : k.getD d 0 = n := by
  rw [Array.getD_eq_getD_getElem?, hk, Option.getD_some]

theorem getD_setIfInBounds (hd : d < k.size) (n : Nat) (e : DefId) :
    (k.setIfInBounds d n).getD e 0 = if d = e then n else k.getD e 0 := by
  simp only [Array.getD_eq_getD_getElem?, Array.getElem?_setIfInBounds]
  by_cases h : d = e
  · simp [h ▸ hd, h]
  · simp [h]

/-- Inside of a definition that was entered one entry less is left. -/
theorem entriesLeft_enter (hd : d ∈ composites rules) (hk : k[d]? = some n) (hn : n < limit) :
    entriesLeft rules limit (k.setIfInBounds d (n + 1)) < entriesLeft rules limit k := by
  have hsize : d < k.size := (Array.getElem?_eq_some_iff.1 hk).1
  have hget : k.getD d 0 = n := getD_of_getElem? hk
  refine Finset.sum_lt_sum (fun e _ => ?_) ⟨d, hd, ?_⟩
  · rw [getD_setIfInBounds hsize]
    split
    · next heq =>
      subst heq
      omega
    · exact le_rfl
  · rw [getD_setIfInBounds hsize, if_pos rfl]
    omega

/-- Counters that come up while something is written out from the counters `k` on: those of leaves are at
most one more than in `k`, all others are within the limit. -/
def Within (rules : Array Rule) (limit : Nat) (k m : Array Nat) : Prop :=
  ∀ d, m.getD d 0 ≤ if d ∈ composites rules then limit else k.getD d 0 + 1

end Entries

/-! ### Calls -/

section Calls

variable {rules : Array Rule} {limit n : Nat} {k m : Array Nat} {d e : DefId} {entered : List DefId}

/-- Counters at the beginning of a call: there is one for each definition, and those of definitions that
are not leaves are within the limit. -/
structure Ready (rules : Array Rule) (limit : Nat) (k : Array Nat) : Prop where
  size_eq : k.size = rules.size
  composite : ∀ d ∈ composites rules, k.getD d 0 ≤ limit

/-- The counters say how often definitions were entered. -/
def Counts (rules : Array Rule) (entered : List DefId) (k : Array Nat) : Prop :=
  ∀ d ∈ composites rules, k.getD d 0 = entered.count d

theorem Ready.within (h : Ready rules limit k) : Within rules limit k k := by
  intro d
  split
  · next hd => exact h.composite d hd
  · exact Nat.le_succ _

theorem Ready.enter (h : Ready rules limit k) (hk : k[d]? = some n) (hn : n < limit) :
    Ready rules limit (k.setIfInBounds d (n + 1)) where
  size_eq := by rw [Array.size_setIfInBounds, h.size_eq]
  composite e he := by
    rw [getD_setIfInBounds (Array.getElem?_eq_some_iff.1 hk).1]
    split
    · exact hn
    · exact h.composite e he

/-- The counters right after a definition is entered. -/
theorem Ready.within_enter (h : Ready rules limit k) (hk : k[d]? = some n)
    (hn : d ∈ composites rules → n < limit) : Within rules limit k (k.setIfInBounds d (n + 1)) := by
  intro e
  rw [getD_setIfInBounds (Array.getElem?_eq_some_iff.1 hk).1]
  by_cases heq : d = e
  · subst heq
    rw [if_pos rfl, getD_of_getElem? hk]
    split
    · next hd => exact hn hd
    · exact le_rfl
  · rw [if_neg heq]
    exact h.within e

theorem Counts.enter (h : Counts rules entered k) (hk : k[d]? = some n) (hd : d ∈ composites rules) :
    Counts rules (d :: entered) (k.setIfInBounds d (n + 1)) := by
  intro e he
  rw [getD_setIfInBounds (Array.getElem?_eq_some_iff.1 hk).1]
  split
  · next heq =>
    subst heq
    rw [List.count_cons_self, ← h d hd, getD_of_getElem? hk]
  · next hne => rw [List.count_cons_of_ne hne, h e he]

/-- A definition that mentions others and is entered changes no counter of a leaf. -/
theorem Within.of_enter (hd : d ∈ composites rules) (hsize : d < k.size)
    (h : Within rules limit (k.setIfInBounds d n) m) : Within rules limit k m := by
  intro e
  refine (h e).trans ?_
  split
  · exact le_rfl
  · next he =>
    have hne : d ≠ e := fun heq => he (heq ▸ hd)
    rw [getD_setIfInBounds hsize, if_neg hne]

/-- **A call gives the pattern of the template and puts the counters back**, if the entries that are left
leave room for the nesting. -/
theorem write_gives (hrules : ∀ rule ∈ rules, ∀ e ∈ rule.references, e < rules.size) {fuel room : Nat}
    (hready : Ready rules limit k) (hcounts : Counts rules entered k) (hd : d < rules.size)
    (hfuel : entriesLeft rules limit k < fuel) (hroom : entriesLeft rules limit k < room) :
    Gives (Within rules limit k) k (write rules limit room d)
      (Template.render (ruleOf rules) limit fuel entered d).toText := by
  induction room generalizing fuel k entered d with
  | zero => exact absurd hroom (Nat.not_lt_zero _)
  | succ room ih =>
      obtain ⟨fuel, rfl⟩ : ∃ n, fuel = n + 1 := ⟨fuel - 1, by omega⟩
      obtain ⟨n, hn⟩ : ∃ n, k[d]? = some n :=
        ⟨_, Array.getElem?_eq_getElem (hready.size_eq ▸ hd)⟩
      have hget : k.getD d 0 = n := getD_of_getElem? hn
      have hrule : rules[d]? = some (ruleOf rules d) := by
        rw [ruleOf, Array.getD_eq_getD_getElem?, Array.getElem?_eq_getElem hd, Option.getD_some]
      rw [write, Template.render_succ]
      refine .demand hrule (.count hn ?_)
      by_cases hd' : d ∈ composites rules
      · have hleaf := (mem_composites.1 hd').2
        rw [hleaf, ← hcounts d hd', hget, Bool.not_false, Bool.true_and]
        by_cases hle : limit ≤ n
        · rw [if_pos (decide_eq_true hle), if_pos (decide_eq_true hle)]
          exact .pure _
        · have hlt : n < limit := Nat.lt_of_not_le hle
          rw [if_neg (by simpa using hlt), if_neg (by simpa using hlt)]
          have hless := entriesLeft_enter hd' hn hlt
          refine .around hn hready.within (hready.within_enter hn fun _ => hlt) (writeRule_gives ?_)
          intro e he
          have hmem : ruleOf rules d ∈ rules := Array.mem_of_getElem? hrule
          exact (ih (hready.enter hn hlt) (hcounts.enter hn hd') (hrules _ hmem e he) (by omega)
            (by omega)).mono fun m => Within.of_enter hd' (hready.size_eq ▸ hd)
      · -- a leaf is entered whatever its counter says, and nothing is nested inside
        have hleaf : (ruleOf rules d).isLeaf = true := by
          simpa using fun h => hd' (mem_composites.2 ⟨hd, h⟩)
        rw [if_neg (by simp [hleaf]), if_neg (by simp [hleaf])]
        refine .around hn hready.within (hready.within_enter hn fun h => absurd h hd')
          (writeRule_gives fun e he => ?_)
        rw [Rule.references_eq_nil hleaf] at he
        cases he

/-- Whatever the counters are, some definitions entered one after the other lead to them. -/
theorem exists_counts (hsize : k.size = rules.size) : ∃ entered, Counts rules entered k := by
  suffices ∀ n, ∃ entered : List DefId, (∀ d ∈ entered, d < n) ∧ ∀ d < n, entered.count d = k.getD d 0 by
    obtain ⟨entered, -, hentered⟩ := this k.size
    exact ⟨entered, fun d hd => (hentered d (hsize ▸ (mem_composites.1 hd).1)).symm⟩
  intro n
  induction n with
  | zero => exact ⟨[], List.forall_mem_nil _, fun d hd => absurd hd (Nat.not_lt_zero d)⟩
  | succ n ih =>
      obtain ⟨entered, hlt, hcount⟩ := ih
      refine ⟨List.replicate (k.getD n 0) n ++ entered, fun d hd => ?_, fun d hd => ?_⟩
      · rcases List.mem_append.1 hd with hd | hd
        · rw [List.eq_of_mem_replicate hd]
          exact Nat.lt_succ_self n
        · exact Nat.lt_succ_of_lt (hlt d hd)
      · rw [List.count_append, List.count_replicate]
        rcases Nat.lt_succ_iff_lt_or_eq.1 hd with hd | rfl
        · rw [hcount d hd, if_neg (by simpa using Nat.ne_of_gt hd), Nat.zero_add]
        · have hnone : entered.count d = 0 :=
            List.count_eq_zero.2 fun hmem => Nat.lt_irrefl d (hlt d hmem)
          rw [hnone, if_pos (beq_self_eq_true d), Nat.add_zero]

/-- Nothing is being written out at first. -/
theorem getD_fresh (size : Nat) (d : DefId) : (fresh size).counters.getD d 0 = 0 := by
  rw [fresh, Array.getD_eq_getD_getElem?, Array.getElem?_replicate]
  split <;> rfl

theorem ready_fresh (rules : Array Rule) (limit : Nat) :
    Ready rules limit (fresh rules.size).counters where
  size_eq := Array.size_replicate
  composite d _ := by
    rw [getD_fresh]
    exact Nat.zero_le limit

theorem counts_fresh (rules : Array Rule) : Counts rules [] (fresh rules.size).counters :=
  fun d _ => getD_fresh rules.size d

/-- **A fresh scribe gives the pattern of each definition.** -/
theorem write_fresh_gives (hrules : ∀ rule ∈ rules, ∀ e ∈ rule.references, e < rules.size)
    {room : Nat} (hroom : limit * (composites rules).card + 2 ≤ room) (hd : d < rules.size) :
    Gives (Within rules limit (fresh rules.size).counters) (fresh rules.size).counters
      (write rules limit room d) (Template.ofDefinition (ruleOf rules) rules.size limit d).toText := by
  have hleft := entriesLeft_le rules limit (fresh rules.size).counters
  have hcard : (composites rules).card ≤ rules.size :=
    (Finset.card_filter_le _ _).trans_eq (Finset.card_range _)
  have hfuel := Nat.mul_le_mul_left limit hcard
  exact write_gives hrules (ready_fresh rules limit) (counts_fresh rules) hd (by omega) (by omega)

/-- **Writing out ends, within the limits, and leaves no trace.**  Take any table of rules in which all
definitions that are mentioned exist, whatever cycles there are, and any limit.  There is room enough for
the nesting of calls when two more calls than the limit times the number of definitions that are not
leaves may be nested.  Then a call on any definition, from all counters that a call can find, gives one
text and puts every counter back; in between the counters of definitions that are not leaves never exceed
the limit, and those of leaves go up by at most one.  And whatever a scribe has written out before, what
it gives for a definition is the pattern of the template of this definition. -/
theorem write_restores {rules : Array Rule}
    (hrules : ∀ rule ∈ rules, ∀ e ∈ rule.references, e < rules.size) (limit : Nat) :
    (∀ k, Ready rules limit k → ∀ d < rules.size, ∃ text,
      ∀ room ≥ limit * (composites rules).card + 2,
        Gives (Within rules limit k) k (write rules limit room d) text) ∧
      (∀ ds : List DefId, (∀ d ∈ ds, d < rules.size) →
        ∀ room ≥ limit * (composites rules).card + 2, ∃ record,
          (ds.mapM (write rules limit room)).run (fresh rules.size) =
            some (ds.map fun d => (Template.ofDefinition (ruleOf rules) rules.size limit d).toText,
              ⟨(fresh rules.size).counters, record⟩) ∧
          ∀ m ∈ record, Within rules limit (fresh rules.size).counters m) := by
  constructor
  · intro k hready d hd
    have hleft := entriesLeft_le rules limit k
    obtain ⟨entered, hcounts⟩ := exists_counts hready.size_eq
    exact ⟨_, fun room hroom =>
      write_gives hrules hready hcounts hd (Nat.lt_succ_self _) (by omega)⟩
  · intro ds hds room hroom
    have hgives := Gives.mapM fun d hd => write_fresh_gives hrules hroom (hds d hd)
    obtain ⟨added, hrun, hadded⟩ := hgives []
    exact ⟨added ++ [], hrun, by simpa using hadded⟩

end Calls

/-! ### Cycles -/

/-- Brackets around brackets, an alias of itself, and a choice that begins with itself. -/
def cyclicRules : Array Rule :=
  #[.literal ['('], .literal [')'], .forward 4, .loop 2 .any, .sequence [0, 3, 1], .alias 5 none,
    .choice [6, 0]]

/-- One scribe writes out the patterns of definitions on all three cycles. -/
theorem write_restores_cyclic :
    (∀ rule ∈ cyclicRules, ∀ e ∈ rule.references, e < cyclicRules.size) ∧
      1 * (composites cyclicRules).card + 2 = 7 ∧
      Ready cyclicRules 1 #[0, 0, 1, 1, 1, 0, 0] ∧
      (∃ text, Gives (Within cyclicRules 1 #[0, 0, 1, 1, 1, 0, 0]) #[0, 0, 1, 1, 1, 0, 0]
        (write cyclicRules 1 7 0) text) ∧
      (∃ record, ([2, 5, 6, 2].mapM (write cyclicRules 1 7)).run (fresh 7) =
        some (["(?:\\()(?:(?:(?s:.)*)*)(?:\\))".toList, "(?s:.)*".toList,
          "(?:(?s:.)*)|(?:\\()".toList, "(?:\\()(?:(?:(?s:.)*)*)(?:\\))".toList],
          ⟨#[0, 0, 0, 0, 0, 0, 0], record⟩) ∧
        ∀ m ∈ record, Within cyclicRules 1 (fresh 7).counters m) := by
  have hrules : ∀ rule ∈ cyclicRules, ∀ e ∈ rule.references, e < cyclicRules.size := by decide
  have hcard : 1 * (composites cyclicRules).card + 2 = 7 := by decide
  have hready : Ready cyclicRules 1 #[0, 0, 1, 1, 1, 0, 0] := ⟨rfl, by decide⟩
  obtain ⟨hcall, hcalls⟩ := write_restores hrules 1
  obtain ⟨text, htext⟩ := hcall _ hready 0 (by decide)
  exact ⟨hrules, hcard, hready, ⟨text, htext 7 hcard.le⟩,
    hcalls [2, 5, 6, 2] (by decide) 7 hcard.le⟩

end Scribe

end Tessera
