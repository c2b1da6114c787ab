/-
**Byte offsets into a text.**

A text is a list of characters, and a position in it is counted in bytes of its UTF-8 encoding.  A
byte offset is a *boundary* when no character straddles it.  Cutting at an offset inside a
character, or past the end, falls back to the nearest boundary before it, so every cut is total and
nothing is ever split.

Main definitions:

* `Tessera.Text` — texts;
* `Tessera.byteLength` — the number of bytes of a text;
* `Tessera.takeBytes`, `Tessera.dropBytes` — the two parts of a text around a byte offset;
* `Tessera.slice` — the characters between two byte offsets;
* `Tessera.IsBoundary` — the offsets at which nothing is split.

Main results:

* `Tessera.takeBytes_append_dropBytes` — a cut loses nothing;
* `Tessera.takeBytes_append`, `Tessera.dropBytes_append` — a cut after a whole prefix gives back
  the prefix and the rest.
-/

set_option autoImplicit false

namespace Tessera

/-- A text, as the list of its characters. -/
abbrev Text := List Char

/-! ### Length -/

/-- The number of bytes of the UTF-8 encoding of a text. -/
def byteLength : Text → Nat
  | [] => 0
  | c :: cs => c.utf8Size + byteLength cs

@[simp] theorem byteLength_nil : byteLength [] = 0 := rfl

@[simp] theorem byteLength_cons (c : Char) (cs : Text) :
    byteLength (c :: cs) = c.utf8Size + byteLength cs := rfl

@[simp] theorem byteLength_append (xs ys : Text) :
    byteLength (xs ++ ys) = byteLength xs + byteLength ys := by
  induction xs with
  | nil => simp
  | cons x xs ih => simp [ih]; omega

/-! ### Cutting -/

/-- The longest prefix of a text that fits into `n` bytes. -/
def takeBytes : Nat → Text → Text
  | _, [] => []
  | n, c :: cs => if c.utf8Size ≤ n then c :: takeBytes (n - c.utf8Size) cs else []

/-- What follows the longest prefix of a text that fits into `n` bytes. -/
def dropBytes : Nat → Text → Text
  | _, [] => []
  | n, c :: cs => if c.utf8Size ≤ n then dropBytes (n - c.utf8Size) cs else c :: cs

/-- The characters between the byte offsets `start` and `stop`. -/
def slice (text : Text) (start stop : Nat) : Text :=
  takeBytes (stop - start) (dropBytes start text)

@[simp] theorem takeBytes_nil (n : Nat) : takeBytes n [] = [] := by cases n <;> rfl

@[simp] theorem dropBytes_nil (n : Nat) : dropBytes n [] = [] := by cases n <;> rfl

/-- A cut loses nothing. -/
theorem takeBytes_append_dropBytes (n : Nat) (text : Text) :
    takeBytes n text ++ dropBytes n text = text := by
  induction text generalizing n with
  | nil => simp
  | cons c cs ih =>
      by_cases h : c.utf8Size ≤ n
      · simp [takeBytes, dropBytes, h, ih]
      · simp [takeBytes, dropBytes, h]

/-- A cut right after a prefix gives back that prefix. -/
@[simp] theorem takeBytes_append (xs ys : Text) :
    takeBytes (byteLength xs) (xs ++ ys) = xs := by
  induction xs with
  | nil =>
      cases ys with
      | nil => rfl
      | cons c cs =>
          have := c.utf8Size_pos
          simp [takeBytes]; omega
  | cons x xs ih =>
      have h : x.utf8Size + byteLength xs - x.utf8Size = byteLength xs := by omega
      simp [takeBytes, h, ih]

/-- A cut right after a prefix leaves what follows the prefix. -/
@[simp] theorem dropBytes_append (xs ys : Text) :
    dropBytes (byteLength xs) (xs ++ ys) = ys := by
  have h := takeBytes_append_dropBytes (byteLength xs) (xs ++ ys)
  rw [takeBytes_append] at h
  exact List.append_cancel_left h

/-! ### Boundaries -/

/-- An offset is a boundary of a text when some prefix ends there. -/
def IsBoundary (text : Text) (n : Nat) : Prop :=
  byteLength (takeBytes n text) = n

instance (text : Text) (n : Nat) : Decidable (IsBoundary text n) :=
  inferInstanceAs (Decidable (_ = _))

/-- The characters between two offsets, when both are boundaries in order. -/
def slice? (text : Text) (start stop : Nat) : Option Text :=
  if start ≤ stop ∧ IsBoundary text start ∧ IsBoundary text stop then
    some (slice text start stop)
  else none

/-- The boundaries of a text are the lengths of its prefixes. -/
theorem isBoundary_iff {text : Text} {n : Nat} :
    IsBoundary text n ↔ ∃ xs ys, text = xs ++ ys ∧ n = byteLength xs := by
  constructor
  · intro h
    exact ⟨takeBytes n text, dropBytes n text, (takeBytes_append_dropBytes n text).symm, h.symm⟩
  · rintro ⟨xs, ys, rfl, rfl⟩
    simp [IsBoundary]

end Tessera
