/-
**Motions find spans.**

A motion carries a set of positions along a relation between positions: forwards along the spans of
its expression, backwards along their converse.  Sequences of motions carry sets along the
composition, and repeated motions along several rounds.  Where any number of rounds is allowed, as
many as the text has characters suffice, because a round that stays where it is can be left out.

Main definitions:

* `Tessera.Pattern.Carries` — a function carries sets of positions along a relation;
* `Tessera.Pattern.Regex.Bounded` — no repetition asks for more rounds than it allows.

Main results:

* `Tessera.Pattern.Regex.testBit_endsFromStart`, `Tessera.Pattern.Regex.testBit_startsToEnd`,
  `Tessera.Pattern.Regex.occursIn_iff` — **exactly the spans of an expression are found**.
-/

import Tessera.Pattern.Motion

set_option autoImplicit false

namespace Tessera.Pattern

/-! ### Rounds -/

namespace Regex

variable {R : Nat → Nat → Prop} {m n a b c : Nat}

theorem Rounds.append (h : Rounds R m a b) (h' : Rounds R n b c) : Rounds R (m + n) a c := by
  induction m generalizing a with
  | zero =>
      have : a = b := h
      rw [Nat.zero_add, this]
      exact h'
  | succ m ih =>
      obtain ⟨j, hj, h⟩ := h
      rw [Nat.add_right_comm]
      exact ⟨j, hj, ih h⟩

theorem Rounds.split (h : Rounds R (m + n) a c) : ∃ b, Rounds R m a b ∧ Rounds R n b c := by
  induction m generalizing a with
  | zero => exact ⟨a, rfl, by rwa [Nat.zero_add] at h⟩
  | succ m ih =>
      rw [Nat.add_right_comm] at h
      obtain ⟨j, hj, h⟩ := h
      obtain ⟨b, hb, h⟩ := ih h
      exact ⟨b, ⟨j, hj, hb⟩, h⟩

theorem rounds_one : Rounds R 1 a b ↔ R a b := by
  constructor
  · rintro ⟨j, hj, rfl⟩
    exact hj
  · intro h
    exact ⟨b, h, rfl⟩

/-- Rounds of the converse relation are rounds the other way. -/
theorem rounds_converse : Rounds (fun a b => R b a) n a b ↔ Rounds R n b a := by
  induction n generalizing a b with
  | zero => exact eq_comm
  | succ n ih =>
      constructor
      · rintro ⟨j, hj, h⟩
        exact (ih.1 h).append (rounds_one.2 hj)
      · intro h
        obtain ⟨j, h, hj⟩ := h.split
        exact ⟨j, rounds_one.1 hj, ih.2 h⟩

/-- What every round preserves, several rounds preserve. -/
theorem Rounds.invariant {P : Nat → Prop} (hP : ∀ a b, P a → R a b → P b) (ha : P a)
    (h : Rounds R n a b) : P b := by
  induction n generalizing a with
  | zero => exact (show a = b from h) ▸ ha
  | succ n ih =>
      obtain ⟨j, haj, h⟩ := h
      exact ih (hP a j ha haj) h

/-- Rounds that stay where they are can be left out: when every other round lowers a measure, no more
rounds are needed than the measure has room for. -/
theorem Rounds.shorten {P : Nat → Prop} {μ : Nat → Nat} (hP : ∀ a b, P a → R a b → P b)
    (hμ : ∀ a b, P a → R a b → a = b ∨ μ b < μ a) (ha : P a) (h : Rounds R n a b) :
    ∃ m, m ≤ μ a ∧ m ≤ n ∧ Rounds R m a b := by
  induction n generalizing a with
  | zero => exact ⟨0, Nat.zero_le _, Nat.le_refl _, h⟩
  | succ n ih =>
      obtain ⟨j, hj, h⟩ := h
      obtain ⟨m, hm, hmn, h⟩ := ih (hP a j ha hj) h
      rcases hμ a j ha hj with rfl | hless
      · exact ⟨m, hm, by omega, h⟩
      · exact ⟨m + 1, by omega, by omega, j, hj, h⟩

end Regex

/-! ### Carrying sets of positions -/

open Regex

/-- No position of the set lies beyond `size`. -/
def Within (size s : Nat) : Prop := ∀ a, s.testBit a = true → a ≤ size

/-- The function carries sets of positions up to `size` along the relation. -/
structure Carries (size : Nat) (f : Nat → Nat) (R : Nat → Nat → Prop) : Prop where
  testBit : ∀ s, Within size s → ∀ b,
    (f s).testBit b = true ↔ ∃ a, s.testBit a = true ∧ R a b
  le : ∀ a b, a ≤ size → R a b → b ≤ size

namespace Carries

variable {size : Nat} {f g : Nat → Nat} {R Q : Nat → Nat → Prop}

theorem within (h : Carries size f R) {s : Nat} (hs : Within size s) : Within size (f s) := by
  intro b hb
  obtain ⟨a, ha, hab⟩ := (h.testBit s hs b).1 hb
  exact h.le a b (hs a ha) hab

theorem congr (h : Carries size f R) (hRQ : ∀ a b, a ≤ size → (R a b ↔ Q a b)) :
    Carries size f Q where
  testBit s hs b := by
    rw [h.testBit s hs b]
    exact exists_congr fun a => and_congr_right fun ha => hRQ a b (hs a ha)
  le a b ha hab := h.le a b ha ((hRQ a b ha).2 hab)

theorem id (size : Nat) : Carries size (fun s => s) fun a b => a = b where
  testBit s _ b := by simp
  le a b ha hab := hab ▸ ha

theorem comp (hf : Carries size f R) (hg : Carries size g Q) :
    Carries size (fun s => g (f s)) fun a c => ∃ b, R a b ∧ Q b c where
  testBit s hs c := by
    rw [hg.testBit _ (hf.within hs) c]
    constructor
    · rintro ⟨b, hb, hbc⟩
      obtain ⟨a, ha, hab⟩ := (hf.testBit s hs b).1 hb
      exact ⟨a, ha, b, hab, hbc⟩
    · rintro ⟨a, ha, b, hab, hbc⟩
      exact ⟨b, (hf.testBit s hs b).2 ⟨a, ha, hab⟩, hbc⟩
  le a c ha := by
    rintro ⟨b, hab, hbc⟩
    exact hg.le b c (hf.le a b ha hab) hbc

theorem union (hf : Carries size f R) (hg : Carries size g Q) :
    Carries size (fun s => f s ||| g s) fun a b => R a b ∨ Q a b where
  testBit s hs b := by
    rw [Nat.testBit_or, Bool.or_eq_true, hf.testBit s hs b, hg.testBit s hs b, ← exists_or]
    exact exists_congr fun a => (and_or_left).symm
  le a b ha hab := hab.elim (hf.le a b ha) (hg.le a b ha)

theorem iterate (hf : Carries size f R) (n : Nat) :
    Carries size (iterate f n) (Rounds R n) where
  testBit s hs b := by
    induction n generalizing s with
    | zero =>
        rw [Pattern.iterate]
        exact ((Carries.id size).testBit s hs b)
    | succ n ih =>
        rw [Pattern.iterate]
        split
        · next hzero => simp [hzero]
        · rw [ih (f s) (hf.within hs)]
          constructor
          · rintro ⟨j, hj, h⟩
            obtain ⟨a, ha, haj⟩ := (hf.testBit s hs j).1 hj
            exact ⟨a, ha, j, haj, h⟩
          · rintro ⟨a, ha, j, haj, h⟩
            exact ⟨j, (hf.testBit s hs j).2 ⟨a, ha, haj⟩, h⟩
  le a b ha h := h.invariant (P := fun i => i ≤ size) hf.le ha

theorem spread (hf : Carries size f R) (n : Nat) :
    Carries size (spread f n) fun a b => ∃ m, m ≤ n ∧ Rounds R m a b where
  testBit s hs b := by
    induction n generalizing s with
    | zero =>
        rw [Pattern.spread]
        constructor
        · intro hb
          exact ⟨b, hb, 0, Nat.le_refl _, rfl⟩
        · rintro ⟨a, ha, m, hm, h⟩
          obtain rfl : m = 0 := Nat.le_zero.1 hm
          exact (show a = b from h) ▸ ha
    | succ n ih =>
        simp only [Pattern.spread]
        split
        · next hclosed =>
          -- what is reached in one round is there already
          have hstep : ∀ a j, s.testBit a = true → R a j → s.testBit j = true := by
            intro a j ha haj
            rw [← hclosed, Nat.testBit_or, Bool.or_eq_true]
            exact .inr ((hf.testBit s hs j).2 ⟨a, ha, haj⟩)
          constructor
          · intro hb
            exact ⟨b, hb, 0, Nat.zero_le _, rfl⟩
          · rintro ⟨a, ha, m, -, h⟩
            clear hclosed
            induction m generalizing a with
            | zero => exact (show a = b from h) ▸ ha
            | succ m ihm =>
                obtain ⟨j, haj, h⟩ := h
                exact ihm j (hstep a j ha haj) h
        · have hwithin : Within size (s ||| f s) := by
            intro a ha
            rw [Nat.testBit_or, Bool.or_eq_true] at ha
            exact ha.elim (hs a) (hf.within hs a)
          rw [ih _ hwithin]
          simp only [Nat.testBit_or, Bool.or_eq_true]
          constructor
          · rintro ⟨a, ha | ha, m, hm, h⟩
            · exact ⟨a, ha, m, by omega, h⟩
            · obtain ⟨i, hi, hia⟩ := (hf.testBit s hs a).1 ha
              exact ⟨i, hi, m + 1, by omega, a, hia, h⟩
          · rintro ⟨a, ha, m, hm, h⟩
            cases m with
            | zero => exact ⟨a, .inl ha, 0, Nat.zero_le _, h⟩
            | succ m =>
                obtain ⟨j, haj, h⟩ := h
                exact ⟨j, .inr ((hf.testBit s hs j).2 ⟨a, ha, haj⟩), m, by omega, h⟩
  le a b ha := by
    rintro ⟨m, -, h⟩
    exact (hf.iterate m).le a b ha h

/-- Repeating a motion: any number of rounds from `min` on, up to `max` if there is a largest number.
`μ` measures how much room is left. -/
theorem repeated (hf : Carries size f R) {μ : Nat → Nat} (hsize : ∀ a, a ≤ size → μ a ≤ size)
    (hμ : ∀ a b, a ≤ size → R a b → a = b ∨ μ b < μ a) {min more : Nat} {max : Option Nat}
    (hmore : ∀ m, max = some m → more = m - min) (hsize' : max = none → more = size)
    (hbounds : ∀ m, max = some m → min ≤ m) :
    Carries size (fun s => Pattern.spread f more (Pattern.iterate f min s))
      fun a b => ∃ n, min ≤ n ∧ (∀ m, max = some m → n ≤ m) ∧ Rounds R n a b := by
  refine ((hf.iterate min).comp (hf.spread more)).congr fun a c ha => ?_
  constructor
  · rintro ⟨b, hab, m, hm, hbc⟩
    refine ⟨min + m, Nat.le_add_right .., fun k hk => ?_, hab.append hbc⟩
    have := hbounds k hk
    have := hmore k hk
    omega
  · rintro ⟨n, hmin, hmax, h⟩
    obtain ⟨k, rfl⟩ : ∃ k, n = min + k := ⟨n - min, by omega⟩
    obtain ⟨b, hab, hbc⟩ := h.split
    refine ⟨b, hab, ?_⟩
    cases hcase : max with
    | none =>
        have hb := (hf.iterate min).le a b ha hab
        obtain ⟨m, hm, _, h⟩ := hbc.shorten hf.le hμ hb
        exact ⟨m, by rw [hsize' hcase]; exact Nat.le_trans hm (hsize b hb), h⟩
    | some max =>
        have := hmax max hcase
        have := hmore max hcase
        exact ⟨k, by omega, hbc⟩

end Carries

/-! ### Sets of positions of a text -/

/-- The character before position `i` of a text. -/
def charBefore (before : Option Char) (text : List Char) (i : Nat) : Option Char :=
  if i = 0 then before else text[i - 1]?

theorem testBit_double_add (n : Nat) (b : Bool) (i : Nat) :
    (2 * n + b.toNat).testBit i = if i = 0 then b else n.testBit (i - 1) := by
  cases i with
  | zero => cases b <;> simp [Nat.testBit_zero, Nat.add_mod]
  | succ i =>
      have hlt : b.toNat < 2 := Bool.toNat_lt b
      have hdiv : (2 * n + b.toNat) / 2 = n := by omega
      rw [Nat.testBit_succ, hdiv]
      simp

/-- The positions at which a condition on the characters around holds. -/
theorem testBit_positionsWhere {p : Option Char → Option Char → Bool} {before : Option Char}
    {text : List Char} {i : Nat} :
    (positionsWhere p before text).testBit i = true ↔
      i ≤ text.length ∧ p (charBefore before text i) text[i]? = true := by
  induction text generalizing before i with
  | nil =>
      have h := testBit_double_add 0 (p before none) i
      rw [Nat.mul_zero, Nat.zero_add] at h
      rw [positionsWhere, h]
      cases i with
      | zero => simp [charBefore]
      | succ i => simp
  | cons c cs ih =>
      rw [positionsWhere, testBit_double_add]
      cases i with
      | zero => simp [charBefore]
      | succ i =>
          rw [if_neg (Nat.succ_ne_zero i), Nat.succ_sub_one, ih]
          have hbefore : charBefore (some c) cs i = charBefore before (c :: cs) (i + 1) := by
            cases i <;> simp [charBefore]
          rw [hbefore]
          simp

namespace Regex

/-! ### Spans -/

/-- No repetition asks for more rounds than it allows. -/
def Bounded : Regex → Prop
  | .empty => True
  | .set _ => True
  | .look _ => True
  | .seq a b => a.Bounded ∧ b.Bounded
  | .alt a b => a.Bounded ∧ b.Bounded
  | .repeated r min max => r.Bounded ∧ ∀ m, max = some m → min ≤ m

theorem Span.le_length {text : List Char} {r : Regex} {i j : Nat} (h : Span text r i j)
    (hi : i ≤ text.length) : j ≤ text.length := by
  induction r generalizing i j with
  | empty => exact (show i = j from h) ▸ hi
  | set s =>
      obtain ⟨rfl, c, hc, _⟩ := h
      exact (List.getElem?_eq_some_iff.1 hc).1
  | look l => exact h.1 ▸ hi
  | seq a b iha ihb =>
      obtain ⟨k, ha, hb⟩ := h
      exact ihb hb (iha ha hi)
  | alt a b iha ihb => exact h.elim (fun h => iha h hi) fun h => ihb h hi
  | repeated r min max ih =>
      obtain ⟨n, _, _, hr⟩ := h
      exact hr.invariant (P := fun i => i ≤ text.length) (fun i j hi h => ih h hi) hi

variable (text : List Char)

/-- Forwards, the motion of an expression carries positions along its spans. -/
theorem carries_forward {r : Regex} (hr : r.Bounded) :
    Carries text.length ((r.motion text).run text.length .forward) (Span text r) := by
  induction r with
  | empty => exact Carries.id _
  | set s =>
      refine ⟨fun t _ j => ?_, fun i j hi h => Span.le_length h hi⟩
      simp only [motion, Motion.run, Nat.testBit_shiftLeft, Nat.testBit_and, Span, positionsOf,
        Bool.and_eq_true, decide_eq_true_eq, testBit_positionsWhere, Option.any_eq_true]
      constructor
      · rintro ⟨hj, ht, _, c, hc, hs⟩
        exact ⟨j - 1, ht, by omega, c, hc, hs⟩
      · rintro ⟨i, ht, rfl, c, hc, hs⟩
        have := (List.getElem?_eq_some_iff.1 hc).1
        exact ⟨by omega, ht, by omega, c, hc, hs⟩
  | look l =>
      refine ⟨fun t _ j => ?_, fun i j hi h => Span.le_length h hi⟩
      simp only [motion, Motion.run, Nat.testBit_and, Bool.and_eq_true, testBit_positionsWhere, Span]
      constructor
      · rintro ⟨ht, hj, hl⟩
        exact ⟨j, ht, rfl, hj, hl⟩
      · rintro ⟨i, ht, rfl, hj, hl⟩
        exact ⟨ht, hj, hl⟩
  | seq a b iha ihb => exact (iha hr.1).comp (ihb hr.2)
  | alt a b iha ihb => exact (iha hr.1).union (ihb hr.2)
  | repeated r min max ih =>
      refine (ih hr.1).repeated (μ := fun i => text.length - i) (fun i _ => Nat.sub_le ..) ?_
        (fun m hm => by rw [hm]) (fun hm => by rw [hm]) hr.2
      intro i j hi h
      have hle := h.le
      have := Span.le_length h hi
      omega

/-- Backwards, the motion of an expression carries positions against its spans. -/
theorem carries_backward {r : Regex} (hr : r.Bounded) :
    Carries text.length ((r.motion text).run text.length .backward) fun j i => Span text r i j := by
  have hle : ∀ r : Regex, ∀ j i, j ≤ text.length → Span text r i j → i ≤ text.length :=
    fun r j i hj h => Nat.le_trans h.le hj
  induction r with
  | empty => exact (Carries.id _).congr fun i j _ => eq_comm
  | set s =>
      refine ⟨fun t _ i => ?_, hle _⟩
      simp only [motion, Motion.run, Nat.testBit_shiftRight, Nat.testBit_and, Span, positionsOf,
        Bool.and_eq_true, testBit_positionsWhere, Option.any_eq_true]
      constructor
      · rintro ⟨ht, _, c, hc, hs⟩
        exact ⟨i + 1, by rwa [Nat.add_comm] at ht, rfl, c, hc, hs⟩
      · rintro ⟨j, ht, rfl, c, hc, hs⟩
        have := (List.getElem?_eq_some_iff.1 hc).1
        exact ⟨by rwa [Nat.add_comm], by omega, c, hc, hs⟩
  | look l =>
      refine ⟨fun t ht i => ?_, hle _⟩
      simp only [motion, Motion.run, Nat.testBit_and, Bool.and_eq_true, testBit_positionsWhere, Span]
      constructor
      · rintro ⟨ht, hi, hl⟩
        exact ⟨i, ht, rfl, hi, hl⟩
      · rintro ⟨j, ht, rfl, hi, hl⟩
        exact ⟨ht, hi, hl⟩
  | seq a b iha ihb =>
      refine ((ihb hr.2).comp (iha hr.1)).congr fun k i _ => ?_
      exact exists_congr fun j => and_comm
  | alt a b iha ihb => exact (iha hr.1).union (ihb hr.2)
  | repeated r min max ih =>
      refine ((ih hr.1).repeated (μ := fun i => i) (fun i hi => hi) ?_ (fun m hm => by rw [hm])
        (fun hm => by rw [hm]) hr.2).congr fun j i _ => ?_
      · intro j i _ h
        have := h.le
        omega
      · exact exists_congr fun n => and_congr_right fun _ => and_congr_right fun _ => rounds_converse

/-- The ends of prefixes that are spans. -/
theorem testBit_endsFromStart {r : Regex} (hr : r.Bounded) (j : Nat) :
    (r.endsFromStart text).testBit j = true ↔ Span text r 0 j := by
  have hone : ∀ a, (1 : Nat).testBit a = true ↔ a = 0 := by
    intro a
    cases a <;> simp [Nat.testBit_succ]
  rw [endsFromStart, (carries_forward text hr).testBit _ fun a ha => by rw [(hone a).1 ha]; omega]
  simp only [hone, exists_eq_left]

/-- The beginnings of suffixes that are spans. -/
theorem testBit_startsToEnd {r : Regex} (hr : r.Bounded) (i : Nat) :
    (r.startsToEnd text).testBit i = true ↔ Span text r i text.length := by
  have hlast : ∀ a, (1 <<< text.length).testBit a = true ↔ a = text.length := by
    intro a
    rw [Nat.one_shiftLeft, Nat.testBit_two_pow, decide_eq_true_eq, eq_comm]
  rw [startsToEnd,
    (carries_backward text hr).testBit _ fun a ha => Nat.le_of_eq ((hlast a).1 ha)]
  simp only [hlast, exists_eq_left]

/-- **A match occurs when some part of the text is a span.** -/
theorem occursIn_iff {r : Regex} (hr : r.Bounded) :
    r.occursIn text = true ↔ ∃ i j, i ≤ text.length ∧ Span text r i j := by
  have hall : ∀ i, ((1 <<< (text.length + 1)) - 1).testBit i = true ↔ i ≤ text.length := by
    intro i
    rw [Nat.one_shiftLeft, Nat.testBit_two_pow_sub_one, decide_eq_true_eq, Nat.lt_succ_iff]
  have hrun := (carries_forward text hr).testBit _ fun i hi => (hall i).1 hi
  simp only [hall] at hrun
  rw [occursIn, bne_iff_ne]
  constructor
  · intro hne
    obtain ⟨j, hj⟩ := Nat.exists_testBit_of_ne_zero hne
    obtain ⟨i, hi⟩ := (hrun j).1 hj
    exact ⟨i, j, hi⟩
  · rintro ⟨i, j, hi⟩ hzero
    have hj := (hrun j).2 ⟨i, hi⟩
    rw [hzero, Nat.zero_testBit] at hj
    cases hj

end Regex

end Tessera.Pattern
