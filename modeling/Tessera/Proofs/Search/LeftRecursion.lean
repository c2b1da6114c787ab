/-
**Left recursion.**

A search refuses a part when it is inside of it already.  Every part around then begins at the same
offset, so each of them begins with the next one: what stands before that in its rule is nothing, or
was accepted as an empty text.  A definition that is refused therefore begins with itself, and a
grammar without such a definition never refuses a part.

What was accepted as an empty text has that text in its language; this the search itself knows, as far
as everything that it remembers is true.

Main definitions:

* `Tessera.Grammar.BeginsWith` — a definition begins with another one;
* `Tessera.Grammar.LeftRecursive` — some definition begins with itself;
* `Tessera.Query.Leads` — the parts around that begin at an offset lead to a definition.

Main results:

* `Tessera.Query.parse_calm` — a search for a part refuses nothing;
* `Tessera.refusals_eq_zero` — **without left recursion nothing is refused**.
-/

import Mathlib.Logic.Relation
import Tessera.Proofs.Search.Acceptance

set_option autoImplicit false

namespace Tessera

open Attempt

namespace Grammar

/-- A text of `e` may be the beginning of a text of `d`: nothing stands before `e` in the rule behind
`d` but parts that may be empty. -/
def BeginsWith (g : Grammar) (d e : DefId) : Prop :=
  ∃ c, (g.shape d).Begins (fun i => g.Derives i []) c ∧ g.resolve c = e

/-- Some definition begins with itself, perhaps through others. -/
def LeftRecursive (g : Grammar) : Prop := ∃ d, Relation.TransGen g.BeginsWith d d

/-- What a rule begins with, it mentions. -/
theorem mem_references_of_begins {empty : DefId → Prop} {r : Rule} {c : DefId}
    (h : r.Begins empty c) : c ∈ r.references := by
  cases r with
  | sequence items => obtain ⟨k, hk, -⟩ := h; exact List.mem_of_getElem? hk
  | choice alternatives => exact h
  | optional item quantifier => obtain rfl : c = item := h; exact List.mem_singleton_self _
  | loop item r => obtain rfl : c = item := h; exact List.mem_singleton_self _
  | separated item separator default r =>
      rcases h with rfl | ⟨rfl, -⟩
      · exact List.mem_cons_self
      · exact List.mem_cons_of_mem _ (List.mem_singleton_self _)
  | literal text => exact absurd h id
  | pattern source => exact absurd h id
  | empty => exact absurd h id
  | «alias» target name => exact absurd h id
  | forward target => exact absurd h id
  | withDefault content target => exact absurd h id

/-- A grammar whose definitions mention only smaller ones is not left-recursive. -/
theorem Valid.not_leftRecursive {g : Grammar} (hg : g.Valid)
    (h : ∀ d < g.size, ∀ c ∈ (g.shape d).references, g.resolve c < d) : ¬ g.LeftRecursive := by
  have hstep : ∀ {d e}, g.BeginsWith d e → e < d := by
    rintro d _ ⟨c, hc, rfl⟩
    have hmem := mem_references_of_begins hc
    by_cases hd : d < g.size
    · exact h d hd c hmem
    · have hrule := rule_of_le (Nat.not_lt.1 hd)
      have hself : g.resolve d = d := hg.resolve_self d (by rw [hrule]; rfl)
      rw [shape, hself, hrule] at hmem
      exact absurd hmem List.not_mem_nil
  have hless : ∀ {d e}, Relation.TransGen g.BeginsWith d e → e < d := by
    intro d e hde
    induction hde with
    | single hde => exact hstep hde
    | tail _ hde ih => exact Nat.lt_trans (hstep hde) ih
  rintro ⟨d, hd⟩
  exact Nat.lt_irrefl d (hless hd)

end Grammar

namespace Query

variable {q : Query}

/-- The parts around begin no later than at `start`, and those that begin there lead to `d`. -/
def Leads (q : Query) (active : List Part) (d : DefId) (start : Nat) : Prop :=
  ∀ part ∈ active, part.start ≤ start ∧
    (part.start = start →
      Relation.TransGen q.grammar.BeginsWith part.definition (q.grammar.resolve d))

/-- What a search tries inside of a part is led to as well. -/
theorem Leads.call (hg : q.grammar.Valid) {active : List Part} {d c : DefId}
    {start stop s e : Nat} (h : q.Leads active d start)
    (hcall : q.Calls (fun i => q.grammar.Derives i []) d start stop c s e) :
    q.Leads (⟨q.grammar.resolve d, start, stop⟩ :: active) c s := by
  have hbegins : s = start →
      q.grammar.BeginsWith (q.grammar.resolve d) (q.grammar.resolve c) := by
    intro hs
    have hshape : q.grammar.shape (q.grammar.resolve d) = q.grammar.shape d := by
      rw [Grammar.shape, Grammar.shape, hg.resolve_resolve]
    exact ⟨c, by rw [hshape]; exact hcall.begins hs, rfl⟩
  refine List.forall_mem_cons.2 ⟨⟨hcall.left, fun hs => .single (hbegins hs.symm)⟩, ?_⟩
  intro part hpart
  obtain ⟨hle, hlead⟩ := h part hpart
  refine ⟨hle.trans hcall.left, fun hs => ?_⟩
  have hstart : part.start = start := Nat.le_antisymm hle (hs ▸ hcall.left)
  exact (hlead hstart).tail (hbegins (hs.symm.trans hstart))

/-- From a state that remembers nothing wrong a search leads to such a state, and what it finds is a
derivation. -/
theorem parse_sound (hg : q.grammar.Valid) (fuel : Nat) (active : List Part) {d : DefId}
    {start stop : Nat} (hrange : IsRange q.text start stop) :
    Guided q.Sound (fun _ => True)
      (fun x => x.span = ⟨start, stop⟩ ∧ x.Fits q.grammar q.text d)
      (q.parse fuel active d start stop) := by
  intro s hs
  have htracked := parse_faithful hg.resolve_resolve fuel active 0 d start stop True s
    ⟨hs, Nat.zero_le _, fun _ => trivial⟩
  generalize (q.parse fuel active d start stop s).1 = r at htracked
  generalize (q.parse fuel active d start stop s).2 = s' at htracked
  match r with
  | .ok x =>
      obtain ⟨n, hn⟩ := htracked.2.exists
      exact ⟨htracked.1.1, plain_fits hg n active d start stop x hrange hn⟩
  | .error .rejected => exact ⟨htracked.1.1, trivial⟩
  | .error .limitExceeded => exact ⟨htracked, trivial⟩
  | .error .outOfFuel => exact ⟨htracked, trivial⟩

/-- The state remembers nothing wrong, and nothing was refused. -/
def Calm (q : Query) (s : SearchState) : Prop := q.Sound s ∧ s.refusals = 0

theorem steady_calm (q : Query) : q.Steady q.Calm where
  note s f _ h := by
    obtain ⟨hfailed, hrefusals⟩ := record_kept s f
    simpa only [Calm, Sound, hfailed, hrefusals] using h
  backtrack s d e h := h

/-- **Without left recursion a search for a part refuses nothing.** -/
theorem parse_calm (hg : q.grammar.Valid) (hleft : ¬ q.grammar.LeftRecursive) (fuel : Nat)
    {active : List Part} {d : DefId} {start stop : Nat} (hrange : IsRange q.text start stop)
    (hleads : q.Leads active d start) :
    Guided q.Calm (fun _ => True)
      (fun x => x.span = ⟨start, stop⟩ ∧ (start = stop → q.grammar.Derives d []))
      (q.parse fuel active d start stop) := by
  induction fuel generalizing active d start stop with
  | zero => exact fun s hs => ⟨hs, trivial⟩
  | succ fuel ih =>
      intro s hs
      obtain ⟨hsound, hends⟩ := parse_sound hg (fuel + 1) active (d := d) hrange s hs.1
      refine ⟨⟨hsound, ?_⟩, ?_⟩
      · simp only [parse]
        split
        · exact hs.2
        split
        · -- the parts around would lead from the part to itself
          next hactive =>
          have hmem := List.contains_iff_mem.1 hactive
          exact absurd ⟨_, (hleads _ hmem).2 rfl⟩ hleft
        split
        · exact hs.2
        have hcalls : ∀ c s e, q.Calls (fun i => q.grammar.Derives i []) d start stop c s e →
            Guided q.Calm (fun _ => True)
              (fun x => x.span = ⟨s, e⟩ ∧ (s = e → q.grammar.Derives c []))
              (q.parse fuel (⟨q.grammar.resolve d, start, stop⟩ :: active) c s e) :=
          fun c s e hcall => ih hcall.range (hleads.call hg hcall)
        obtain ⟨⟨-, hcalm⟩, -⟩ := parseShape_guided hg ((steady_calm q).on d start stop) trivial
          hrange hcalls
          (s.happen (.enter d start stop)) hs
        split
        · next hr => rw [hr] at hcalm; exact hcalm
        · next hr =>
          rw [hr] at hcalm
          split <;> exact hcalm
      · generalize (q.parse (fuel + 1) active d start stop s).1 = r at hends
        cases r with
        | error e => trivial
        | ok x =>
            obtain ⟨hspan, hfits⟩ := hends
            refine ⟨hspan, ?_⟩
            rintro rfl
            refine hfits.derives hg ?_
            rw [Split.Holds, hspan]
            exact slice?_self hrange.left

/-- A search of a whole text begins inside of nothing. -/
theorem run_calm (hg : q.grammar.Valid) (hleft : ¬ q.grammar.LeftRecursive) (d : DefId) :
    (q.run d).2.refusals = 0 :=
  (parse_calm hg hleft _ (IsRange.whole q.text) (fun _ h => absurd h List.not_mem_nil)
    SearchState.start ⟨knows_start.1, rfl⟩).1.2

end Query

/-- **Without left recursion nothing is refused.** -/
theorem refusals_eq_zero {g : Grammar} (hg : g.Valid) (hleft : ¬ g.LeftRecursive) (d : DefId)
    (text : Text) : g.refusals d text = 0 := by
  have hcalm := fun prune => Query.run_calm (q := ⟨g, text, prune⟩) hg hleft d
  have hpruned := hcalm true
  rw [Grammar.refusals, hcalm false]
  split
  · split
    · next hr => rw [hr] at hpruned; exact hpruned
    · next hr => rw [hr] at hpruned; exact hpruned
  · rfl

end Tessera
