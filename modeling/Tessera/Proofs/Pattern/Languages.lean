/-
**The texts that an expression matches.**

Without conditions on positions it does not matter where in a text a span lies: an expression matches
a span when it matches the characters of the span.  Such an expression has a language.

Main definitions:

* `Tessera.Pattern.Regex.LookFree` — no conditions on positions;
* `Tessera.Pattern.Regex.Matches` — the texts that an expression matches.

Main results:

* `Tessera.Pattern.Regex.span_iff` — **a span is matched when its characters are**;
* `Tessera.Pattern.Regex.seqs_matches_iff`, `alts_matches_iff`, `repetition_matches_iff` — what
  compound expressions match.
-/

import Mathlib.Data.List.Forall2
import Tessera.Proofs.Pattern.Motions
import Tessera.Proofs.Text.Rows

set_option autoImplicit false

namespace Tessera.Pattern.Regex

/-! ### Languages -/

/-- No condition on a position occurs in the expression. -/
def LookFree : Regex → Prop
  | .empty => True
  | .set _ => True
  | .look _ => False
  | .seq a b => a.LookFree ∧ b.LookFree
  | .alt a b => a.LookFree ∧ b.LookFree
  | .repeated r _ _ => r.LookFree

/-- The texts that the expression matches, as long as it has no conditions on positions. -/
def Matches : Regex → List Char → Prop
  | .empty, w => w = []
  | .set s, w => ∃ c, w = [c] ∧ s.contains c.toNat = true
  | .look _, _ => False
  | .seq a b, w => ∃ u v, w = u ++ v ∧ a.Matches u ∧ b.Matches v
  | .alt a b, w => a.Matches w ∨ b.Matches w
  | .repeated r min max, w =>
      ∃ ws : List (List Char), min ≤ ws.length ∧ (∀ m, max = some m → ws.length ≤ m) ∧
        (∀ u ∈ ws, r.Matches u) ∧ w = ws.flatten

theorem matches_seq {a b : Regex} {w : List Char} :
    Matches (.seq a b) w ↔ ∃ u v, w = u ++ v ∧ a.Matches u ∧ b.Matches v := Iff.rfl

theorem matches_alt {a b : Regex} {w : List Char} :
    Matches (.alt a b) w ↔ a.Matches w ∨ b.Matches w := Iff.rfl

/-! ### Spans and languages -/

theorem append_prefix_drop {text u v : List Char} {i : Nat} :
    u ++ v <+: text.drop i ↔ u <+: text.drop i ∧ v <+: text.drop (i + u.length) := by
  constructor
  · rintro ⟨t, ht⟩
    rw [List.append_assoc] at ht
    refine ⟨⟨v ++ t, ht⟩, t, ?_⟩
    rw [← List.drop_drop, ← ht, List.drop_left]
  · rintro ⟨⟨s, hs⟩, ⟨t, ht⟩⟩
    rw [← List.drop_drop, ← hs, List.drop_left] at ht
    exact ⟨t, by rw [List.append_assoc, ht, hs]⟩

theorem singleton_prefix_drop {text : List Char} {c : Char} {i : Nat} :
    [c] <+: text.drop i ↔ text[i]? = some c := by
  rw [List.singleton_prefix_iff_head?_eq_some, List.head?_drop]

/-- Rounds of an expression match the concatenation of as many texts. -/
theorem rounds_iff {text : List Char} {r : Regex}
    (hr : ∀ i j, Span text r i j ↔ ∃ w, w <+: text.drop i ∧ j = i + w.length ∧ r.Matches w)
    {n i j : Nat} :
    Rounds (Span text r) n i j ↔ ∃ ws : List (List Char), ws.length = n ∧
      (∀ u ∈ ws, r.Matches u) ∧ ws.flatten <+: text.drop i ∧ j = i + ws.flatten.length := by
  induction n generalizing i with
  | zero =>
      constructor
      · rintro rfl
        exact ⟨[], rfl, by simp, List.nil_prefix, rfl⟩
      · rintro ⟨ws, hlength, -, -, rfl⟩
        rw [List.length_eq_zero_iff.1 hlength]
        rfl
  | succ n ih =>
      constructor
      · rintro ⟨k, hk, h⟩
        obtain ⟨u, hu, rfl, hmatch⟩ := (hr i k).1 hk
        obtain ⟨ws, rfl, hall, hws, rfl⟩ := ih.1 h
        refine ⟨u :: ws, rfl, List.forall_mem_cons.2 ⟨hmatch, hall⟩, ?_, ?_⟩
        · exact append_prefix_drop.2 ⟨hu, hws⟩
        · simp only [List.flatten_cons, List.length_append, Nat.add_assoc]
      · rintro ⟨_ | ⟨u, ws⟩, hlength, hall, hws, rfl⟩
        · simp at hlength
        · obtain ⟨hmatch, hall⟩ := List.forall_mem_cons.1 hall
          obtain ⟨hu, hws⟩ := append_prefix_drop.1 hws
          refine ⟨i + u.length, (hr _ _).2 ⟨u, hu, rfl, hmatch⟩, ih.2 ⟨ws, ?_, hall, hws, ?_⟩⟩
          · simpa using hlength
          · simp only [List.flatten_cons, List.length_append, Nat.add_assoc]

/-- **A span is matched when its characters are.** -/
theorem span_iff {text : List Char} {r : Regex} (hr : r.LookFree) {i j : Nat} :
    Span text r i j ↔ ∃ w, w <+: text.drop i ∧ j = i + w.length ∧ r.Matches w := by
  induction r generalizing i j with
  | empty =>
      constructor
      · rintro rfl
        exact ⟨[], List.nil_prefix, rfl, rfl⟩
      · rintro ⟨_, -, rfl, rfl⟩
        rfl
  | set s =>
      constructor
      · rintro ⟨rfl, c, hc, hs⟩
        exact ⟨[c], singleton_prefix_drop.2 hc, rfl, c, rfl, hs⟩
      · rintro ⟨_, hc, rfl, c, rfl, hs⟩
        exact ⟨rfl, c, singleton_prefix_drop.1 hc, hs⟩
  | look l => exact absurd hr id
  | seq a b iha ihb =>
      constructor
      · rintro ⟨k, ha, hb⟩
        obtain ⟨u, hu, rfl, hau⟩ := (iha hr.1).1 ha
        obtain ⟨v, hv, rfl, hbv⟩ := (ihb hr.2).1 hb
        refine ⟨u ++ v, append_prefix_drop.2 ⟨hu, hv⟩, ?_, u, v, rfl, hau, hbv⟩
        rw [List.length_append, Nat.add_assoc]
      · rintro ⟨_, hw, rfl, u, v, rfl, hau, hbv⟩
        obtain ⟨hu, hv⟩ := append_prefix_drop.1 hw
        refine ⟨i + u.length, (iha hr.1).2 ⟨u, hu, rfl, hau⟩, (ihb hr.2).2 ⟨v, hv, ?_, hbv⟩⟩
        rw [List.length_append, Nat.add_assoc]
  | alt a b iha ihb =>
      rw [Span, iha hr.1, ihb hr.2, ← exists_or]
      simp only [matches_alt, ← and_or_left]
  | repeated r min max ih =>
      simp only [Span, Matches, rounds_iff fun i j => ih hr]
      constructor
      · rintro ⟨_, hmin, hmax, ws, rfl, hall, hws, rfl⟩
        exact ⟨_, hws, rfl, ws, hmin, hmax, hall, rfl⟩
      · rintro ⟨_, hws, rfl, ws, hmin, hmax, hall, rfl⟩
        exact ⟨_, hmin, hmax, ws, rfl, hall, hws, rfl⟩

variable {text u v : List Char} {r : Regex}

/-- All of a text is a span when the text is in the language. -/
theorem span_whole_iff (hr : r.LookFree) : Span text r 0 text.length ↔ r.Matches text := by
  rw [span_iff hr]
  constructor
  · rintro ⟨w, hw, hlength, hmatch⟩
    rw [List.drop_zero] at hw
    rwa [← hw.eq_of_length (by omega)]
  · intro h
    exact ⟨text, List.prefix_refl text, by omega, h⟩

/-- A prefix is a span when it is in the language. -/
theorem span_prefix_iff (hr : r.LookFree) : Span (u ++ v) r 0 u.length ↔ r.Matches u := by
  rw [span_iff hr]
  constructor
  · rintro ⟨w, hw, hlength, hmatch⟩
    have hu : u <+: (u ++ v).drop 0 := List.prefix_append u v
    have : w = u := (List.prefix_of_prefix_length_le hw hu (by omega)).eq_of_length (by omega)
    rwa [← this]
  · intro h
    exact ⟨u, List.prefix_append u v, by omega, h⟩

/-- A suffix is a span when it is in the language. -/
theorem span_suffix_iff (hr : r.LookFree) :
    Span (u ++ v) r u.length (u ++ v).length ↔ r.Matches v := by
  rw [span_iff hr, List.drop_left, List.length_append]
  constructor
  · rintro ⟨w, hw, hlength, hmatch⟩
    rwa [← hw.eq_of_length (by omega)]
  · intro h
    exact ⟨v, List.prefix_refl v, rfl, h⟩

/-! ### Languages of compound expressions -/

section Compound

variable {r : Regex} {rs : List Regex} {w : List Char}

theorem seqs_lookFree (h : ∀ r ∈ rs, r.LookFree) : (seqs rs).LookFree := by
  induction rs with
  | nil => trivial
  | cons r rs ih =>
      obtain ⟨hr, hrs⟩ := List.forall_mem_cons.1 h
      cases rs with
      | nil => exact hr
      | cons r' rs => exact ⟨hr, ih hrs⟩

theorem alts_lookFree (h : ∀ r ∈ rs, r.LookFree) : (alts rs).LookFree := by
  induction rs with
  | nil => trivial
  | cons r rs ih =>
      obtain ⟨hr, hrs⟩ := List.forall_mem_cons.1 h
      cases rs with
      | nil => exact hr
      | cons r' rs => exact ⟨hr, ih hrs⟩

/-- Expressions one after the other match texts in a row. -/
theorem seqs_matches_iff : (seqs rs).Matches w ↔ InRow (rs.map Matches) w := by
  induction rs generalizing w with
  | nil => exact inRow_nil.symm
  | cons r rs ih =>
      rw [List.map_cons, inRow_cons]
      cases rs with
      | nil =>
          simp only [seqs, List.map_nil, inRow_nil]
          constructor
          · intro h
            exact ⟨w, [], by simp, h, rfl⟩
          · rintro ⟨u, _, rfl, h, rfl⟩
            simpa using h
      | cons r' rs => simp only [seqs, matches_seq, ih]

/-- Alternatives match what one of them does. -/
theorem alts_matches_iff : (alts rs).Matches w ↔ ∃ r ∈ rs, r.Matches w := by
  induction rs with
  | nil => simp [alts, never, Matches]
  | cons r rs ih =>
      cases rs with
      | nil => simp [alts]
      | cons r' rs =>
          have hsplit := List.exists_mem_cons_iff (Matches · w) r (r' :: rs)
          exact (or_congr Iff.rfl ih).trans hsplit.symm

/-- An expression that can match nothing but the empty text matches nothing else. -/
theorem eq_nil_of_onlyEmpty (hempty : r.onlyEmpty = true) (h : r.Matches w) : w = [] := by
  induction r generalizing w with
  | empty => exact h
  | set s => simp [onlyEmpty] at hempty
  | look l => exact absurd h id
  | seq a b iha ihb =>
      rw [onlyEmpty, Bool.and_eq_true] at hempty
      obtain ⟨u, v, rfl, ha, hb⟩ := h
      rw [iha hempty.1 ha, ihb hempty.2 hb]
      rfl
  | alt a b iha ihb =>
      rw [onlyEmpty, Bool.and_eq_true] at hempty
      exact h.elim (iha hempty.1) (ihb hempty.2)
  | repeated r min max ih =>
      obtain ⟨ws, -, hmax, hall, rfl⟩ := h
      rw [onlyEmpty, Bool.or_eq_true] at hempty
      rcases hempty with hempty | hzero
      · exact List.flatten_eq_nil_iff.2 fun u hu => ih hempty (hall u hu)
      · have hle := hmax 0 (by simpa using hzero)
        rw [List.length_eq_zero_iff.1 (Nat.le_zero.1 hle)]
        rfl

/-- A repetition whose bounds are simple already. -/
def simplest (r : Regex) (min : Nat) (max : Option Nat) : Regex :=
  match min, max with
  | 0, some 0 => .empty
  | 1, some 1 => r
  | _, _ => .repeated r min max

theorem repetition_eq (r : Regex) (min : Nat) (max : Option Nat) :
    r.repetition min max =
      if r.onlyEmpty then r.simplest (Nat.min min 1) (some ((max.map (Nat.min · 1)).getD 1))
      else r.simplest min max := by
  unfold repetition simplest
  cases r.onlyEmpty <;> rfl

theorem repetition_lookFree (hr : r.LookFree) (min : Nat) (max : Option Nat) :
    (r.repetition min max).LookFree := by
  have hsimplest (min : Nat) (max : Option Nat) : (r.simplest min max).LookFree := by
    unfold simplest
    split
    · trivial
    · exact hr
    · exact hr
  rw [repetition_eq]
  split <;> exact hsimplest _ _

theorem simplest_matches_iff {min : Nat} {max : Option Nat} :
    (r.simplest min max).Matches w ↔ Repeated r.Matches min max w := by
  unfold simplest
  split
  · constructor
    · rintro rfl
      exact ⟨[], by simp⟩
    · rintro ⟨ws, -, hmax, -, rfl⟩
      rw [List.length_eq_zero_iff.1 (Nat.le_zero.1 (hmax 0 rfl))]
      rfl
  · constructor
    · intro h
      exact ⟨[w], by simp [h]⟩
    · rintro ⟨ws, hmin, hmax, hall, rfl⟩
      obtain ⟨u, rfl⟩ := List.length_eq_one_iff.1 (Nat.le_antisymm (hmax 1 rfl) hmin)
      simpa using hall
  · exact Iff.rfl

/-- When no round can be but empty, none or one of them stands for all. -/
theorem repeated_onlyEmpty {min : Nat} {max : Option Nat} (hempty : r.onlyEmpty = true)
    (hle : ∀ m, max = some m → min ≤ m) :
    Repeated r.Matches (Nat.min min 1) (some ((max.map (Nat.min · 1)).getD 1)) w ↔
      Repeated r.Matches min max w := by
  have hnil : ∀ {ws : List (List Char)}, (∀ u ∈ ws, r.Matches u) → ∀ u ∈ ws, u = [] :=
    fun hall u hu => eq_nil_of_onlyEmpty hempty (hall u hu)
  constructor
  · rintro ⟨ws, hmin, hmax, hall, rfl⟩
    rw [List.flatten_eq_nil_iff.2 (hnil hall)]
    cases ws with
    | nil =>
        -- no round is needed
        have hzero : min = 0 := by
          have hmin : Nat.min min 1 ≤ 0 := hmin
          have : Nat.min min 1 = if min ≤ 1 then min else 1 := Nat.min_def
          split at this <;> omega
        exact ⟨[], by simp [hzero]⟩
    | cons u ws =>
        have hu := hall u List.mem_cons_self
        have hu' := hnil hall u List.mem_cons_self
        subst hu'
        refine ⟨List.replicate min [], by simp, fun m hm => ?_, fun u hu => ?_, ?_⟩
        · rw [List.length_replicate]
          exact hle m hm
        · rwa [List.eq_of_mem_replicate hu]
        · exact (List.flatten_eq_nil_iff.2 fun u hu => List.eq_of_mem_replicate hu).symm
  · rintro ⟨ws, hmin, hmax, hall, rfl⟩
    refine ⟨ws.take 1, ?_, ?_, fun u hu => hall u (List.mem_of_mem_take hu), ?_⟩
    · rw [List.length_take, Nat.min_comm]
      exact Nat.le_min.2 ⟨Nat.le_trans (Nat.min_le_left min 1) hmin, Nat.min_le_right min 1⟩
    · rintro m heq
      rw [List.length_take]
      cases max with
      | none =>
          cases heq
          exact Nat.min_le_left 1 _
      | some max =>
          cases heq
          exact Nat.le_min.2
            ⟨Nat.le_trans (Nat.min_le_right 1 _) (hmax max rfl), Nat.min_le_left 1 _⟩
    · rw [List.flatten_eq_nil_iff.2 (hnil hall),
        List.flatten_eq_nil_iff.2 fun u hu => hnil hall u (List.mem_of_mem_take hu)]

/-- A repetition in its simplest form matches what the repetition does. -/
theorem repetition_matches_iff {min : Nat} {max : Option Nat}
    (hle : ∀ m, max = some m → min ≤ m) :
    (r.repetition min max).Matches w ↔ Repeated r.Matches min max w := by
  rw [repetition_eq]
  split
  · next hempty => rw [simplest_matches_iff, repeated_onlyEmpty hempty hle]
  · exact simplest_matches_iff

end Compound

end Tessera.Pattern.Regex
