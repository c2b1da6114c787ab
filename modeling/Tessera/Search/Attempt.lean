/-
**Attempts.**

An attempt either succeeds or stops for a reason, and in both cases leaves a state behind: what a
failed attempt has learnt is kept.  Only a rejection lets another candidate be tried; every other
reason stops the whole search.

Main definitions:

* `Tessera.Abort` — why an attempt stopped;
* `Tessera.Attempt` — attempts over a state;
* `Tessera.Attempt.orElse` — a second attempt after a rejection;
* `Tessera.Attempt.firstOf` — the first candidate that is not rejected;
* `Tessera.Attempt.onFirst` — an attempt that leaves the second part of the state alone.
-/

set_option autoImplicit false

namespace Tessera

/-- Why an attempt stopped. -/
inductive Abort
  /-- The candidate does not fit. -/
  | rejected
  /-- The search nests deeper than the recursion limit allows. -/
  | limitExceeded
  /-- The search nests deeper than it ever needs to. -/
  | outOfFuel
  deriving DecidableEq, Repr

/-- An attempt over a state `σ` to produce an `α`. -/
def Attempt (σ α : Type) : Type := σ → Except Abort α × σ

namespace Attempt

variable {σ τ α β : Type}

/-- Succeeds with a value. -/
def succeed (a : α) : Attempt σ α := fun s => (.ok a, s)

/-- Stops. -/
def stop (e : Abort) : Attempt σ α := fun s => (.error e, s)

/-- Gives the candidate up. -/
def reject : Attempt σ α := stop .rejected

/-- One attempt after the other, if the first succeeds. -/
def andThen (first : Attempt σ α) (next : α → Attempt σ β) : Attempt σ β := fun s =>
  match first s with
  | (.ok a, s) => next a s
  | (.error e, s) => (.error e, s)

instance : Monad (Attempt σ) where
  pure := succeed
  bind := andThen

/-- Looks something up in the state. -/
def inspect (f : σ → α) : Attempt σ α := fun s => (.ok (f s), s)

/-- Changes the state. -/
def update (f : σ → σ) : Attempt σ Unit := fun s => (.ok (), f s)

/-- A second attempt when the first one is rejected. -/
def orElse (first second : Attempt σ α) : Attempt σ α := fun s =>
  match first s with
  | (.ok a, s) => (.ok a, s)
  | (.error .rejected, s) => second s
  | (.error e, s) => (.error e, s)

/-- Tries one candidate after the other until one is not rejected.  `undo` follows every rejection,
and `otherwise` follows the last one. -/
def firstOf (attempt : α → Attempt σ β) (undo : α → Attempt σ Unit) (otherwise : Attempt σ β) :
    List α → Attempt σ β
  | [] => otherwise
  | a :: as => orElse (attempt a) (undo a >>= fun _ => firstOf attempt undo otherwise as)

/-- An attempt on the first part of a state. -/
def onFirst (a : Attempt σ α) : Attempt (σ × τ) α := fun (s, u) =>
  match a s with
  | (r, s) => (r, (s, u))

@[simp] theorem bind_apply (a : Attempt σ α) (f : α → Attempt σ β) (s : σ) :
    (a >>= f) s = match a s with
      | (.ok x, s) => f x s
      | (.error e, s) => (.error e, s) := rfl

@[simp] theorem pure_apply (a : α) (s : σ) : (pure a : Attempt σ α) s = (.ok a, s) := rfl

end Attempt

end Tessera
