/-
**Rules for attempts.**

An attempt is described by what holds before it and by what holds after it, of its result and of the
state it leaves behind.  The rules follow the operations of `Tessera.Attempt`.

A search with a memory is compared with a search without one, which is a family of functions, one
for each amount of fuel.  The comparison is about two families at once: one that the attempt agrees
with, and one that it is only known to agree with as long as nothing was refused.  What is known is a
proposition that the state guarantees; every result adds to it.

Main definitions:

* `Tessera.Attempt.Triple` — what an attempt does to states that satisfy a condition;
* `Tessera.Attempt.Settles` — an attempt finds a value of some kind or is rejected;
* `Tessera.Attempt.Guided` — an attempt keeps an invariant and ends in one of the admitted ways;
* `Tessera.Eventually`, `Tessera.Never` — what a family of functions yields with enough fuel;
* `Tessera.Attempt.Tracks` — an attempt agrees with one family, and with another one as far as the
  state knows.

Main results:

* `Tessera.Attempt.Tracks.bind`, `Tessera.Attempt.Tracks.orElse`, `Tessera.Attempt.Tracks.firstOf` —
  **tracking goes along with the operations of attempts**.
-/

import Mathlib.Order.Lattice.Nat
import Tessera.Search.Attempt

set_option autoImplicit false

namespace Tessera

namespace Attempt

variable {σ τ α β : Type}

/-! ### Triples -/

/-- From states that satisfy `pre`, the attempt leads to results and states that satisfy `post`. -/
def Triple (pre : σ → Prop) (a : Attempt σ α) (post : Except Abort α → σ → Prop) : Prop :=
  ∀ s, pre s → post (a s).1 (a s).2

theorem Triple.consequence {pre pre' : σ → Prop} {a : Attempt σ α}
    {post post' : Except Abort α → σ → Prop} (h : Triple pre a post) (hpre : ∀ s, pre' s → pre s)
    (hpost : ∀ r s, post r s → post' r s) : Triple pre' a post' :=
  fun s hs => hpost _ _ (h s (hpre s hs))

/-- One attempt after the other: what the first leaves behind when it succeeds is what the second
begins with. -/
theorem Triple.bind {pre : σ → Prop} {a : Attempt σ α} {f : α → Attempt σ β}
    (mid : α → σ → Prop) {post : Except Abort β → σ → Prop}
    (ha : Triple pre a fun r s => match r with
      | .ok x => mid x s
      | .error e => post (.error e) s)
    (hf : ∀ x, Triple (mid x) (f x) post) : Triple pre (a >>= f) post := by
  intro s hs
  have h := ha s hs
  rw [bind_apply]
  match hr : a s with
  | (.ok x, s') => rw [hr] at h; exact hf x s' h
  | (.error e, s') => rw [hr] at h; exact h

/-- A second attempt begins with what a rejection leaves behind. -/
theorem Triple.orElse {pre : σ → Prop} (mid : σ → Prop) {a b : Attempt σ α}
    {post : Except Abort α → σ → Prop}
    (ha : Triple pre a fun r s => match r with
      | .error .rejected => mid s
      | r => post r s)
    (hb : Triple mid b post) : Triple pre (Attempt.orElse a b) post := by
  intro s hs
  have h := ha s hs
  rw [Attempt.orElse]
  match hr : a s with
  | (.ok x, s') => rw [hr] at h; exact h
  | (.error .rejected, s') => rw [hr] at h; exact hb s' h
  | (.error .limitExceeded, s') => rw [hr] at h; exact h
  | (.error .outOfFuel, s') => rw [hr] at h; exact h

/-- Trying candidates in turn: `inv as` is what holds when `as` are left to try. -/
theorem Triple.firstOf (inv : List α → σ → Prop) (undone : α → List α → σ → Prop)
    {attempt : α → Attempt σ β} {undo : α → Attempt σ Unit} {otherwise : Attempt σ β}
    {post : Except Abort β → σ → Prop} {as : List α}
    (htry : ∀ a as', a :: as' <:+ as → Triple (inv (a :: as')) (attempt a) fun r s => match r with
      | .error .rejected => undone a as' s
      | r => post r s)
    (hundo : ∀ a as', a :: as' <:+ as → Triple (undone a as') (undo a) fun r s =>
      r = .ok () ∧ inv as' s)
    (hlast : Triple (inv []) otherwise post) :
    Triple (inv as) (Attempt.firstOf attempt undo otherwise as) post := by
  induction as with
  | nil => exact hlast
  | cons a as ih =>
      refine Triple.orElse (undone a as) (htry a as List.suffix_rfl) ?_
      refine Triple.bind (fun _ => inv as) ?_ fun _ => ?_
      · refine (hundo a as List.suffix_rfl).consequence (fun _ h => h) fun r s h => ?_
        obtain ⟨rfl, h⟩ := h
        exact h
      · exact ih (fun b bs h => htry b bs (h.trans (List.suffix_cons a as)))
          fun b bs h => hundo b bs (h.trans (List.suffix_cons a as))

/-- An attempt on the first part of a state leaves the second part as it is. -/
theorem Triple.onFirst {pre : τ → σ → Prop} {a : Attempt σ α}
    {post : τ → Except Abort α → σ → Prop} (h : ∀ u, Triple (pre u) a (post u)) :
    Triple (fun s : σ × τ => pre s.2 s.1) (Attempt.onFirst a) fun r s => post s.2 r s.1 :=
  fun s hs => h s.2 s.1 hs

/-! ### Attempts that settle -/

/-- The result is a value with the property or a rejection. -/
def Settled (P : α → Prop) : Except Abort α → Prop
  | .ok x => P x
  | .error e => e = .rejected

/-- From every state the attempt finds a value with the property or is rejected; it never stops for
another reason. -/
def Settles (P : α → Prop) (a : Attempt σ α) : Prop := ∀ s, Settled P (a s).1

namespace Settles

variable {P : α → Prop} {Q : β → Prop}

theorem pure {x : α} (h : P x) : Settles P (Pure.pure x : Attempt σ α) := fun _ => h

theorem reject : Settles P (Attempt.reject : Attempt σ α) := fun _ => rfl

theorem bind {a : Attempt σ α} {f : α → Attempt σ β} (ha : Settles P a)
    (hf : ∀ x, P x → Settles Q (f x)) : Settles Q (a >>= f) := by
  intro s
  have h := ha s
  rw [bind_apply]
  match hr : a s with
  | (.ok x, s') => rw [hr] at h; exact hf x h s'
  | (.error e, s') => rw [hr] at h; exact h

theorem orElse {a b : Attempt σ α} (ha : Settles P a) (hb : Settles P b) :
    Settles P (Attempt.orElse a b) := by
  intro s
  have h := ha s
  rw [Attempt.orElse]
  match hr : a s with
  | (.ok x, s') => rw [hr] at h; exact h
  | (.error .rejected, s') => exact hb s'
  | (.error .limitExceeded, s') => rw [hr] at h; exact h
  | (.error .outOfFuel, s') => rw [hr] at h; exact h

theorem firstOf {attempt : α → Attempt σ β} {undo : α → Attempt σ Unit} {otherwise : Attempt σ β}
    {as : List α} (hattempt : ∀ a ∈ as, Settles Q (attempt a))
    (hundo : ∀ a, Settles (fun _ => True) (undo a)) (hlast : Settles Q otherwise) :
    Settles Q (Attempt.firstOf attempt undo otherwise as) := by
  induction as with
  | nil => exact hlast
  | cons a as ih =>
      exact orElse (hattempt a List.mem_cons_self)
        (bind (hundo a) fun _ _ => ih fun b hb => hattempt b (List.mem_cons_of_mem a hb))

end Settles

/-! ### Attempts that keep an invariant -/

/-- The result is a value with the property, or the attempt stopped for an admitted reason. -/
def Ends (A : Abort → Prop) (P : α → Prop) : Except Abort α → Prop
  | .ok x => P x
  | .error e => A e

/-- The attempt keeps the invariant `I` whatever comes of it, and it ends in an admitted way. -/
def Guided (I : σ → Prop) (A : Abort → Prop) (P : α → Prop) (a : Attempt σ α) : Prop :=
  Triple I a fun r s => I s ∧ Ends A P r

namespace Guided

variable {I : σ → Prop} {A : Abort → Prop} {P : α → Prop} {Q : β → Prop}

theorem pure {x : α} (h : P x) : Guided I A P (Pure.pure x : Attempt σ α) := fun _ hs => ⟨hs, h⟩

theorem reject (hA : A .rejected) : Guided I A P (Attempt.reject : Attempt σ α) :=
  fun _ hs => ⟨hs, hA⟩

/-- A look at the state. -/
theorem inspect (f : σ → α) : Guided I A (fun _ => True) (Attempt.inspect f) :=
  fun _ hs => ⟨hs, trivial⟩

/-- Less may be said of the values that are found. -/
theorem weaken {a : Attempt σ α} {P' : α → Prop} (ha : Guided I A P a) (h : ∀ x, P x → P' x) :
    Guided I A P' a := by
  refine Triple.consequence ha (fun _ hs => hs) fun r s hpost => ?_
  match r with
  | .ok x => exact ⟨hpost.1, h x hpost.2⟩
  | .error e => exact hpost

theorem update {u : σ → σ} (h : ∀ s, I s → I (u s)) :
    Guided I A (fun _ => True) (Attempt.update u) := fun s hs => ⟨h s hs, trivial⟩

theorem bind {a : Attempt σ α} {f : α → Attempt σ β} (ha : Guided I A P a)
    (hf : ∀ x, P x → Guided I A Q (f x)) : Guided I A Q (a >>= f) := by
  refine Triple.bind (fun x s => I s ∧ P x) ?_ ?_
  · refine ha.consequence (fun _ hs => hs) ?_
    intro r s hpost
    match r with
    | .ok x => exact hpost
    | .error e => exact hpost
  · intro x s hs
    exact hf x hs.2 s hs.1

theorem orElse {a b : Attempt σ α} (ha : Guided I A P a) (hb : Guided I A P b) :
    Guided I A P (Attempt.orElse a b) := by
  refine Triple.orElse I ?_ hb
  refine ha.consequence (fun _ hs => hs) ?_
  intro r s hpost
  match r with
  | .ok x => exact hpost
  | .error .rejected => exact hpost.1
  | .error .limitExceeded => exact hpost
  | .error .outOfFuel => exact hpost

theorem firstOf {attempt : α → Attempt σ β} {undo : α → Attempt σ Unit} {otherwise : Attempt σ β}
    {as : List α} (hattempt : ∀ a ∈ as, Guided I A Q (attempt a))
    (hundo : ∀ a ∈ as, Guided I A (fun _ => True) (undo a)) (hlast : Guided I A Q otherwise) :
    Guided I A Q (Attempt.firstOf attempt undo otherwise as) := by
  induction as with
  | nil => exact hlast
  | cons a as ih =>
      refine orElse (hattempt a List.mem_cons_self) ?_
      refine bind (hundo a List.mem_cons_self) fun _ _ => ?_
      exact ih (fun b hb => hattempt b (List.mem_cons_of_mem a hb))
        fun b hb => hundo b (List.mem_cons_of_mem a hb)

theorem onFirst {a : Attempt σ α} (h : Guided I A P a) :
    Guided (fun s : σ × τ => I s.1) A P (Attempt.onFirst a) :=
  Triple.onFirst (fun _ => h)

/-- An attempt that is guided without an invariant, and stops for no reason but a rejection,
settles. -/
theorem settles {a : Attempt σ α} (h : Guided (fun _ => True) (· = .rejected) P a) :
    Settles P a := by
  intro s
  have hends := (h s trivial).2
  match hr : (a s).1 with
  | .ok x => rw [hr] at hends; exact hends
  | .error e => rw [hr] at hends; exact hends

end Guided

end Attempt

/-! ### Families -/

section Families

variable {ι κ α β : Type} [SemilatticeSup ι] [SemilatticeSup κ]

/-- With enough fuel the family yields the value, and goes on doing so. -/
def Eventually (f : ι → Option α) (x : α) : Prop := ∃ bound, ∀ i, bound ≤ i → f i = some x

/-- The family yields nothing, whatever the fuel. -/
def Never (f : ι → Option α) : Prop := ∀ i, f i = none

theorem Eventually.exists {f : ι → Option α} {x : α} (h : Eventually f x) : ∃ i, f i = some x := by
  obtain ⟨bound, h⟩ := h
  exact ⟨bound, h bound le_rfl⟩

theorem Eventually.const [Nonempty ι] (x : α) : Eventually (fun _ : ι => some x) x :=
  ⟨Classical.arbitrary ι, fun _ _ => rfl⟩

theorem Eventually.bind {f : ι → Option α} {g : α → ι → Option β} {x : α} {y : β}
    (hf : Eventually f x) (hg : Eventually (g x) y) :
    Eventually (fun i => (f i).bind fun x => g x i) y := by
  obtain ⟨b, hf⟩ := hf
  obtain ⟨c, hg⟩ := hg
  refine ⟨b ⊔ c, fun i hi => ?_⟩
  simp [hf i (le_sup_left.trans hi), hg i (le_sup_right.trans hi)]

theorem Eventually.map {f : ι → Option α} {x : α} (hf : Eventually f x) (g : α → β) :
    Eventually (fun i => (f i).map g) (g x) := by
  obtain ⟨b, hf⟩ := hf
  exact ⟨b, fun i hi => by simp [hf i hi]⟩

/-- The first choice decides when it yields something. -/
theorem Eventually.or_left {f : ι → Option α} {x : α} (hf : Eventually f x) (g : ι → Option α) :
    Eventually (fun i => (f i).or (g i)) x := by
  obtain ⟨b, hf⟩ := hf
  exact ⟨b, fun i hi => by simp [hf i hi]⟩

/-- The second choice decides when the first yields nothing. -/
theorem Never.or_right {f g : ι → Option α} {x : α} (hf : Never f) (hg : Eventually g x) :
    Eventually (fun i => (f i).or (g i)) x := by
  obtain ⟨b, hg⟩ := hg
  exact ⟨b, fun i hi => by simp [hf i, hg i hi]⟩

/-- A candidate that yields something decides when those before it are gone. -/
theorem Eventually.findSome? {f : ι → α → Option β} {as bs : List α} {a : α} {x : β}
    (hf : Eventually (fun i => f i a) x)
    (hrest : ∀ i, as.findSome? (f i) = (a :: bs).findSome? (f i)) :
    Eventually (fun i => as.findSome? (f i)) x := by
  obtain ⟨b, hf⟩ := hf
  refine ⟨b, fun i hi => (hrest i).trans ?_⟩
  rw [List.findSome?_cons, show f i a = some x from hf i hi]

/-- Another kind of fuel that reaches every amount of the first kind does not matter. -/
theorem Eventually.refuel {f : ι → Option α} {f' : κ → Option α} {x : α} (hf : Eventually f x)
    (h : ∀ bound, ∃ b, ∀ k, b ≤ k → ∃ i, bound ≤ i ∧ f' k = f i) : Eventually f' x := by
  obtain ⟨bound, hf⟩ := hf
  obtain ⟨b, hb⟩ := h bound
  refine ⟨b, fun k hk => ?_⟩
  obtain ⟨i, hi, hik⟩ := hb k hk
  exact hik.trans (hf i hi)

/-- A family that spends one unit of fuel yields the same. -/
theorem Eventually.succ {f g : Nat → Option α} {x : α} (hf : Eventually f x)
    (hg : ∀ n, g (n + 1) = f n) : Eventually g x :=
  hf.refuel fun bound => ⟨bound + 1, fun k hk =>
    ⟨k - 1, by omega, by rw [← hg, Nat.sub_add_cancel (by omega)]⟩⟩

omit [SemilatticeSup ι] in
theorem Never.map {f : ι → Option α} (hf : Never f) (g : α → β) :
    Never fun i => (f i).map g := fun i => by simp [hf i]

end Families

/-! ### Tracking -/

namespace Attempt

variable {ι σ τ α β : Type} [SemilatticeSup ι]

/-- Who knows something knows what follows from it. -/
def Weakens (K : Prop → σ → Prop) : Prop := ∀ H H' s, (H → H') → K H s → K H' s

/-- What a tracking attempt leaves behind.  `K H` holds of the states that know `H`, and `fails` of
the states in which a search may stop altogether. -/
def Tracked (K : Prop → σ → Prop) (fails : σ → Prop) (H : Prop) (f g : ι → Option α)
    (r : Except Abort α) (s : σ) : Prop :=
  match r with
  | .ok x => K (H ∧ Eventually g x) s ∧ Eventually f x
  | .error .rejected => K (H ∧ Never g) s ∧ Never f
  | .error _ => fails s

/-- The attempt yields what `f` yields with enough fuel, and is rejected when `f` yields nothing.
The same holds of `g` as far as the state knows. -/
def Tracks (K : Prop → σ → Prop) (fails : σ → Prop) (a : Attempt σ α) (f g : ι → Option α) : Prop :=
  ∀ H, Triple (K H) a (Tracked K fails H f g)

variable {K : Prop → σ → Prop} {fails : σ → Prop}

theorem Tracks.pure (hK : Weakens K) [Nonempty ι] {x : α} :
    Tracks K fails (Pure.pure x : Attempt σ α) (fun _ : ι => some x) (fun _ => some x) :=
  fun _ _ hs => ⟨hK _ _ _ (fun h => ⟨h, .const x⟩) hs, .const x⟩

theorem Tracks.reject (hK : Weakens K) :
    Tracks K fails (Attempt.reject : Attempt σ α) (fun _ : ι => none) (fun _ => none) :=
  fun _ _ hs => ⟨hK _ _ _ (fun h => ⟨h, fun _ => rfl⟩) hs, fun _ => rfl⟩

/-- The same attempt tracks families that yield the same. -/
theorem Tracks.congr {a : Attempt σ α} {f g f' g' : ι → Option α} (h : Tracks K fails a f g)
    (hf : f = f') (hg : g = g') : Tracks K fails a f' g' := hf ▸ hg ▸ h

/-- Two attempts in a row track two families in a row.  The families may reach the second one
through other values than the attempt does, which then must not matter. -/
theorem Tracks.bind (hK : Weakens K)
    {a : Attempt σ α} {k : α → Attempt σ β} {f g : ι → Option α} {f' g' : α → ι → Option β}
    (ha : Tracks K fails a f g)
    (hk : ∀ x, Eventually f x → Tracks K fails (k x) (f' x) (g' x))
    (hf : ∀ x y i, Eventually f x → f i = some y → Never (f' x) → f' y i = none)
    (hg : ∀ x y i, Eventually f x → g i = some y → Never (g' x) → g' y i = none) :
    Tracks K fails (a >>= k) (fun i => (f i).bind fun x => f' x i)
      (fun i => (g i).bind fun x => g' x i) := by
  intro H
  refine Triple.bind (fun x s => K (H ∧ Eventually g x) s ∧ Eventually f x) ?_ fun x => ?_
  · refine (ha H).consequence (fun _ h => h) fun r s h => ?_
    match r with
    | .ok x => exact h
    | .error .rejected =>
        obtain ⟨hs, hnone⟩ := h
        exact ⟨hK _ _ _ (fun h => ⟨h.1, fun i => by simp [h.2 i]⟩) hs, fun i => by simp [hnone i]⟩
    | .error .limitExceeded => exact h
    | .error .outOfFuel => exact h
  · intro s ⟨hs, hx⟩
    have hpost := hk x hx (H ∧ Eventually g x) s hs
    generalize (k x s).1 = r at hpost
    generalize (k x s).2 = s' at hpost
    match r with
    | .ok y =>
        exact ⟨hK _ _ _ (fun h => ⟨h.1.1, h.1.2.bind h.2⟩) hpost.1, hx.bind hpost.2⟩
    | .error .rejected =>
        obtain ⟨hs', hnone⟩ := hpost
        refine ⟨hK _ _ _ (fun h => ⟨h.1.1, fun i => ?_⟩) hs', fun i => ?_⟩
        · exact Option.bind_eq_none_iff.2 fun y hy => hg x y i hx hy h.2
        · exact Option.bind_eq_none_iff.2 fun y hy => hf x y i hx hy hnone
    | .error .limitExceeded => exact hpost
    | .error .outOfFuel => exact hpost

/-- A change of the value that is found. -/
theorem Tracks.map (hK : Weakens K) [Nonempty ι]
    {a : Attempt σ α} {f g : ι → Option α} (h : α → β) (ha : Tracks K fails a f g) :
    Tracks K fails (a >>= fun x => Pure.pure (h x)) (fun i => (f i).map h)
      (fun i => (g i).map h) := by
  have hpure : ∀ x, Eventually f x → Tracks K fails (Pure.pure (h x)) (fun _ : ι => some (h x))
      fun _ => some (h x) := fun _ _ => Tracks.pure hK
  have hb := Tracks.bind hK ha hpure (fun x y i _ _ hn => absurd (hn i) (by simp))
    (fun x y i _ _ hn => absurd (hn i) (by simp))
  exact hb.congr (by funext i; cases f i <;> rfl) (by funext i; cases g i <;> rfl)

/-- A second attempt tracks the second choice of a family. -/
theorem Tracks.orElse (hK : Weakens K)
    {a b : Attempt σ α} {f g f' g' : ι → Option α} (ha : Tracks K fails a f g)
    (hb : Tracks K fails b f' g') :
    Tracks K fails (Attempt.orElse a b) (fun i => (f i).or (f' i)) (fun i => (g i).or (g' i)) := by
  intro H
  refine Triple.orElse (fun s => K (H ∧ Never g) s ∧ Never f) ?_ ?_
  · refine (ha H).consequence (fun _ h => h) fun r s h => ?_
    match r with
    | .ok x => exact ⟨hK _ _ _ (fun h' => ⟨h'.1, h'.2.or_left _⟩) h.1, h.2.or_left _⟩
    | .error .rejected => exact h
    | .error .limitExceeded => exact h
    | .error .outOfFuel => exact h
  · intro s ⟨hs, hnone⟩
    have hpost := hb (H ∧ Never g) s hs
    generalize (b s).1 = r at hpost
    generalize (b s).2 = s' at hpost
    match r with
    | .ok x =>
        exact ⟨hK _ _ _ (fun h => ⟨h.1.1, h.1.2.or_right h.2⟩) hpost.1, hnone.or_right hpost.2⟩
    | .error .rejected =>
        obtain ⟨hs', hnone'⟩ := hpost
        exact ⟨hK _ _ _ (fun h => ⟨h.1.1, fun i => by simp [h.1.2 i, h.2 i]⟩) hs',
          fun i => by simp [hnone i, hnone' i]⟩
    | .error .limitExceeded => exact hpost
    | .error .outOfFuel => exact hpost

/-! ### Attempts that only leave a note -/

/-- The attempt succeeds and changes nothing that is known. -/
def Keeps (K : Prop → σ → Prop) (a : Attempt σ Unit) : Prop :=
  ∀ H, Triple (K H) a fun r s => r = .ok () ∧ K H s

theorem Keeps.update {u : σ → σ} (h : ∀ H s, K H s → K H (u s)) : Keeps K (Attempt.update u) :=
  fun H s hs => ⟨rfl, h H s hs⟩

theorem Tracks.note {note : Attempt σ Unit} (hnote : Keeps K note) {k : Unit → Attempt σ α}
    {f g : ι → Option α} (h : Tracks K fails (k ()) f g) : Tracks K fails (note >>= k) f g := by
  refine fun H => Triple.bind (fun _ => K H) ?_ fun _ => h H
  refine (hnote H).consequence (fun _ hs => hs) fun r s hpost => ?_
  obtain ⟨rfl, hs⟩ := hpost
  exact hs

/-! ### Candidates -/

/-- Candidates that are tried in turn track the first success of a family.  What follows the last
candidate may use that all of them failed. -/
theorem Tracks.firstOf (hK : Weakens K)
    {as : List α} {attempt : α → Attempt σ β} {undo : α → Attempt σ Unit}
    {otherwise : Attempt σ β} {f g : ι → α → Option β}
    (hattempt : ∀ a ∈ as, Tracks K fails (attempt a) (fun i => f i a) fun i => g i a)
    (hundo : ∀ a, Keeps K (undo a))
    (hlast : Never (fun i => as.findSome? (f i)) → ∀ H,
      Triple (K (H ∧ Never fun i => as.findSome? (g i))) otherwise
        (Tracked K fails H (fun i => as.findSome? (f i)) fun i => as.findSome? (g i))) :
    Tracks K fails (Attempt.firstOf attempt undo otherwise as) (fun i => as.findSome? (f i))
      fun i => as.findSome? (g i) := by
  intro H
  -- while `bs` are left, they alone decide what the families yield
  let inv (bs : List α) (s : σ) : Prop :=
    K (H ∧ ∀ i, as.findSome? (g i) = bs.findSome? (g i)) s ∧
      ∀ i, as.findSome? (f i) = bs.findSome? (f i)
  refine (Triple.firstOf inv (fun _ bs => inv bs)
    (fun a bs hsuffix => ?_) (fun a bs _ => ?_) ?_).consequence
      (fun s hs => ⟨hK _ _ _ (fun h => ⟨h, fun _ => rfl⟩) hs, fun _ => rfl⟩) fun _ _ h => h
  · intro s ⟨hs, hrest⟩
    have hpost := hattempt a (hsuffix.subset List.mem_cons_self) _ s hs
    generalize (attempt a s).1 = r at hpost
    generalize (attempt a s).2 = s' at hpost
    match r with
    | .ok x =>
        exact ⟨hK _ _ _ (fun h => ⟨h.1.1, h.2.findSome? h.1.2⟩) hpost.1, hpost.2.findSome? hrest⟩
    | .error .rejected =>
        obtain ⟨hs', hnone⟩ := hpost
        have hH : (H ∧ ∀ i, as.findSome? (g i) = (a :: bs).findSome? (g i)) ∧
            (Never fun i => g i a) → H ∧ ∀ i, as.findSome? (g i) = bs.findSome? (g i) := by
          rintro ⟨⟨h, heq⟩, hga⟩
          refine ⟨h, fun i => (heq i).trans ?_⟩
          rw [List.findSome?_cons, show g i a = none from hga i]
        refine ⟨hK _ _ _ hH hs', fun i => (hrest i).trans ?_⟩
        rw [List.findSome?_cons, show f i a = none from hnone i]
    | .error .limitExceeded => exact hpost
    | .error .outOfFuel => exact hpost
  · intro s ⟨hs, hrest⟩
    obtain ⟨hr, hs'⟩ := hundo a _ s hs
    exact ⟨hr, hs', hrest⟩
  · intro s ⟨hs, hrest⟩
    exact hlast hrest H s hs

/-- Families that take their fuel from another kind of fuel, and yield nothing while there is too
little of it, are tracked as well. -/
theorem Tracks.refuel {κ : Type} [SemilatticeSup κ] (hK : Weakens K) {a : Attempt σ α}
    {f g : ι → Option α} {f' g' : κ → Option α} (h : Tracks K fails a f g)
    (hsome : ∀ bound, ∃ b, ∀ k, b ≤ k → ∃ i, bound ≤ i ∧ f' k = f i ∧ g' k = g i)
    (hf : ∀ k, f' k = none ∨ ∃ i, f' k = f i) (hg : ∀ k, g' k = none ∨ ∃ i, g' k = g i) :
    Tracks K fails a f' g' := by
  have hnever : ∀ {f : ι → Option α} {f' : κ → Option α},
      (∀ k, f' k = none ∨ ∃ i, f' k = f i) → Never f → Never f' := by
    intro f f' hf hnone k
    rcases hf k with hk | ⟨i, hk⟩
    · exact hk
    · exact hk.trans (hnone i)
  refine fun H => (h H).consequence (fun _ hs => hs) fun r s hpost => ?_
  match r with
  | .ok x =>
      exact ⟨hK _ _ _ (fun h => ⟨h.1, h.2.refuel fun bound => (hsome bound).imp fun b hb k hk =>
          (hb k hk).imp fun i hi => ⟨hi.1, hi.2.2⟩⟩) hpost.1,
        hpost.2.refuel fun bound => (hsome bound).imp fun b hb k hk =>
          (hb k hk).imp fun i hi => ⟨hi.1, hi.2.1⟩⟩
  | .error .rejected =>
      exact ⟨hK _ _ _ (fun h => ⟨h.1, hnever hg h.2⟩) hpost.1, hnever hf hpost.2⟩
  | .error .limitExceeded => exact hpost
  | .error .outOfFuel => exact hpost

theorem Tracks.comp {κ : Type} [SemilatticeSup κ] (hK : Weakens K) {a : Attempt σ α}
    {f g : ι → Option α} (h : Tracks K fails a f g) {φ : κ → ι}
    (hφ : ∀ bound, ∃ b, ∀ k, b ≤ k → bound ≤ φ k) :
    Tracks K fails a (fun k => f (φ k)) fun k => g (φ k) :=
  h.refuel hK (fun bound => (hφ bound).imp fun _ hb k hk => ⟨φ k, hb k hk, rfl, rfl⟩)
    (fun k => .inr ⟨φ k, rfl⟩) fun k => .inr ⟨φ k, rfl⟩

/-- Families that spend one unit of the second kind of fuel. -/
theorem Tracks.spend (hK : Weakens K) {a : Attempt σ α} {f g f' g' : Nat × Nat → Option α}
    (h : Tracks K fails a f g) (hf₀ : ∀ b, f' (b, 0) = none) (hf : ∀ b n, f' (b, n + 1) = f (b, n))
    (hg₀ : ∀ b, g' (b, 0) = none) (hg : ∀ b n, g' (b, n + 1) = g (b, n)) :
    Tracks K fails a f' g' := by
  refine h.refuel hK ?_ ?_ ?_
  · rintro ⟨b, m⟩
    refine ⟨(b, m + 1), ?_⟩
    rintro ⟨c, n⟩ hle
    obtain ⟨hc, hn⟩ := Prod.le_def.1 hle
    have hn : m + 1 ≤ n := hn
    obtain ⟨n, rfl⟩ : ∃ k, n = k + 1 := ⟨n - 1, by omega⟩
    exact ⟨(c, n), Prod.le_def.2 ⟨hc, Nat.le_of_succ_le_succ hn⟩, hf c n, hg c n⟩
  · rintro ⟨b, _ | n⟩
    · exact .inl (hf₀ b)
    · exact .inr ⟨(b, n), hf b n⟩
  · rintro ⟨b, _ | n⟩
    · exact .inl (hg₀ b)
    · exact .inr ⟨(b, n), hg b n⟩

/-! ### States with a second part -/

/-- What the first part of a state knows includes what `G` says of the second part, and `R` holds of
the second part. -/
def Beside (K : Prop → σ → Prop) (G R : τ → Prop) (H : Prop) (s : σ × τ) : Prop :=
  K (H ∧ G s.2) s.1 ∧ R s.2

variable {G R : τ → Prop}

theorem Weakens.beside (hK : Weakens K) : Weakens (Beside K G R) :=
  fun _ _ _ h hs => ⟨hK _ _ _ (fun h' => ⟨h h'.1, h'.2⟩) hs.1, hs.2⟩

theorem Keeps.onFirst {a : Attempt σ Unit} (h : Keeps K a) :
    Keeps (Beside K G R) (Attempt.onFirst a) := by
  intro H s hs
  obtain ⟨hr, hs'⟩ := h _ s.1 hs.1
  exact ⟨hr, hs', hs.2⟩

theorem Tracks.onFirst (hK : Weakens K) {a : Attempt σ α} {f g : ι → Option α}
    (h : Tracks K fails a f g) :
    Tracks (Beside K G R) (fun s => fails s.1) (Attempt.onFirst a) f g := by
  intro H s hs
  have hpost := h _ s.1 hs.1
  simp only [Attempt.onFirst]
  generalize (a s.1).1 = r at hpost
  generalize (a s.1).2 = s' at hpost
  match r with
  | .ok x => exact ⟨⟨hK _ _ _ (fun h => ⟨⟨h.1.1, h.2⟩, h.1.2⟩) hpost.1, hs.2⟩, hpost.2⟩
  | .error .rejected =>
      exact ⟨⟨hK _ _ _ (fun h => ⟨⟨h.1.1, h.2⟩, h.1.2⟩) hpost.1, hs.2⟩, hpost.2⟩
  | .error .limitExceeded => exact hpost
  | .error .outOfFuel => exact hpost

/-- An attempt with a second part of its own, which is dropped in the end. -/
theorem Tracks.inside (hK : Weakens K) {a : Attempt (σ × τ) α} {b : Attempt σ β}
    {f g : ι → Option α} (h : Tracks (Beside K G R) (fun s => fails s.1) a f g) {u : τ} (hG : G u)
    (hR : R u) (w : α → β) (hb : ∀ s, b s = ((a (s, u)).1.map w, (a (s, u)).2.1)) :
    Tracks K fails b (fun i => (f i).map w) fun i => (g i).map w := by
  intro H s hs
  have hpost := h H (s, u) ⟨hK _ _ _ (fun h => ⟨h, hG⟩) hs, hR⟩
  rw [hb]
  generalize (a (s, u)).1 = r at hpost
  generalize (a (s, u)).2 = s' at hpost
  match r with
  | .ok x => exact ⟨hK _ _ _ (fun h => ⟨h.1.1, h.1.2.map w⟩) hpost.1.1, hpost.2.map w⟩
  | .error .rejected =>
      exact ⟨hK _ _ _ (fun h => ⟨h.1.1, Never.map h.1.2 w⟩) hpost.1.1, Never.map hpost.2 w⟩
  | .error .limitExceeded => exact hpost
  | .error .outOfFuel => exact hpost

end Attempt

end Tessera
