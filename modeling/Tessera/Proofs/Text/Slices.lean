/-
**Cutting texts at boundaries.**

A slice between two boundaries stands somewhere in the text: something comes before it and something
after it.  Said this way, slices are cut further and joined without any counting of bytes.

Main results:

* `Tessera.slice?_eq_some_iff` — a slice is what stands between a prefix and a suffix;
* `Tessera.slice?_append`, `Tessera.slice?_join` — **adjacent slices are the slices of a
  concatenation**;
* `Tessera.slice?_boundary` — a slice is cut in two at each of its own boundaries.
-/

import Tessera.Text.Bytes

set_option autoImplicit false

namespace Tessera

variable {text u v w : Text} {i j k n : Nat}

/-! ### Boundaries -/

theorem IsBoundary.le (h : IsBoundary text n) : n ≤ byteLength text := by
  obtain ⟨xs, ys, rfl, rfl⟩ := isBoundary_iff.1 h
  simp

theorem isBoundary_zero (text : Text) : IsBoundary text 0 :=
  isBoundary_iff.2 ⟨[], text, rfl, rfl⟩

theorem isBoundary_byteLength (text : Text) : IsBoundary text (byteLength text) :=
  isBoundary_iff.2 ⟨text, [], by simp, rfl⟩

theorem byteLength_pos (h : w ≠ []) : 0 < byteLength w := by
  obtain ⟨c, cs, rfl⟩ := List.exists_cons_of_ne_nil h
  have := c.utf8Size_pos
  rw [byteLength_cons]
  omega

/-! ### Slices -/

/-- A slice stands between a prefix that ends where it begins and a suffix. -/
theorem slice?_eq_some_iff :
    slice? text i j = some w ↔
      ∃ xs zs, text = xs ++ (w ++ zs) ∧ i = byteLength xs ∧ j = i + byteLength w := by
  constructor
  · intro h
    simp only [slice?, Option.ite_none_right_eq_some, Option.some.injEq] at h
    obtain ⟨⟨hle, hi, hj⟩, rfl⟩ := h
    obtain ⟨xs, ys, rfl, rfl⟩ := isBoundary_iff.1 hi
    obtain ⟨us, vs, huv, rfl⟩ := isBoundary_iff.1 hj
    -- of two prefixes, the shorter one is a prefix of the longer one
    obtain ⟨ms, rfl⟩ : ∃ ms, us = xs ++ ms := by
      rcases List.append_eq_append_iff.1 huv with ⟨ms, hms, _⟩ | ⟨ms, rfl, _⟩
      · exact ⟨ms, hms⟩
      · have : ms = [] := by
          cases ms with
          | nil => rfl
          | cons c cs => have := c.utf8Size_pos; simp at hle; omega
        exact ⟨[], by simp [this]⟩
    rw [List.append_assoc, List.append_cancel_left_eq] at huv
    subst huv
    refine ⟨xs, vs, ?_, rfl, ?_⟩ <;> simp [slice]
  · rintro ⟨xs, zs, rfl, rfl, rfl⟩
    have hi : IsBoundary (xs ++ (w ++ zs)) (byteLength xs) := isBoundary_iff.2 ⟨xs, _, rfl, rfl⟩
    have hj : IsBoundary (xs ++ (w ++ zs)) (byteLength xs + byteLength w) :=
      isBoundary_iff.2 ⟨xs ++ w, zs, by simp, by simp⟩
    simp [slice?, hi, hj, slice]

theorem slice_eq_of_slice? (h : slice? text i j = some w) : slice text i j = w := by
  simp only [slice?, Option.ite_none_right_eq_some, Option.some.injEq] at h
  exact h.2

/-- Between two boundaries in order there is a slice. -/
theorem exists_slice? (hij : i ≤ j) (hi : IsBoundary text i) (hj : IsBoundary text j) :
    slice? text i j = some (slice text i j) := by
  simp [slice?, hij, hi, hj]

theorem slice?_le (h : slice? text i j = some w) : i ≤ j := by
  obtain ⟨_, _, _, _, rfl⟩ := slice?_eq_some_iff.1 h
  exact Nat.le_add_right ..

theorem slice?_stop (h : slice? text i j = some w) : j = i + byteLength w := by
  obtain ⟨_, _, _, _, rfl⟩ := slice?_eq_some_iff.1 h
  rfl

theorem slice?_isBoundary_start (h : slice? text i j = some w) : IsBoundary text i := by
  obtain ⟨xs, _, rfl, rfl, _⟩ := slice?_eq_some_iff.1 h
  exact isBoundary_iff.2 ⟨xs, _, rfl, rfl⟩

theorem slice?_isBoundary_stop (h : slice? text i j = some w) : IsBoundary text j := by
  obtain ⟨xs, zs, rfl, rfl, rfl⟩ := slice?_eq_some_iff.1 h
  exact isBoundary_iff.2 ⟨xs ++ w, zs, by simp, by simp⟩

@[simp] theorem slice?_whole (text : Text) : slice? text 0 (byteLength text) = some text :=
  slice?_eq_some_iff.2 ⟨[], [], by simp, rfl, by simp⟩

/-- An empty range at a boundary holds the empty text. -/
theorem slice?_self (hi : IsBoundary text i) : slice? text i i = some [] := by
  obtain ⟨xs, ys, rfl, rfl⟩ := isBoundary_iff.1 hi
  exact slice?_eq_some_iff.2 ⟨xs, ys, rfl, rfl, by simp⟩

theorem slice?_self_eq (h : slice? text i i = some w) : w = [] := by
  have hstop := slice?_stop h
  by_cases hw : w = []
  · exact hw
  · have := byteLength_pos hw
    omega

/-- A slice that is a concatenation is cut in two. -/
theorem slice?_append (h : slice? text i j = some (u ++ v)) :
    slice? text i (i + byteLength u) = some u ∧ slice? text (i + byteLength u) j = some v := by
  obtain ⟨xs, zs, rfl, rfl, rfl⟩ := slice?_eq_some_iff.1 h
  constructor
  · exact slice?_eq_some_iff.2 ⟨xs, v ++ zs, by simp, rfl, rfl⟩
  · exact slice?_eq_some_iff.2 ⟨xs ++ u, zs, by simp, by simp, by simp; omega⟩

/-- Adjacent slices make up the slice of the whole range. -/
theorem slice?_join (hu : slice? text i k = some u) (hv : slice? text k j = some v) :
    slice? text i j = some (u ++ v) := by
  obtain ⟨xs, zs, rfl, rfl, rfl⟩ := slice?_eq_some_iff.1 hu
  obtain ⟨ys, ts, hys, hk, rfl⟩ := slice?_eq_some_iff.1 hv
  -- the two ways to cut the text right after `u` are the same
  have hcut : zs = v ++ ts := by
    have h₁ := dropBytes_append (xs ++ u) zs
    have h₂ := dropBytes_append ys (v ++ ts)
    rw [← hk, ← hys] at h₂
    rw [byteLength_append, List.append_assoc, h₂] at h₁
    exact h₁.symm
  subst hcut
  exact slice?_eq_some_iff.2 ⟨xs, ts, by simp, rfl, by simp; omega⟩

/-- A slice is cut in two at each of its own boundaries. -/
theorem slice?_boundary (h : slice? text i j = some w) (hn : IsBoundary w n) :
    slice? text i (i + n) = some (takeBytes n w) ∧
      slice? text (i + n) j = some (dropBytes n w) := by
  rw [← takeBytes_append_dropBytes n w] at h
  have hcut := slice?_append h
  rwa [hn] at hcut

/-- A range of the text of a range, in the whole text. -/
theorem slice?_slice? {s e : Nat} (hw : slice? text i j = some w) (hu : slice? w s e = some u) :
    slice? text (i + s) (i + e) = some u := by
  obtain ⟨xs, zs, rfl, rfl, -⟩ := slice?_eq_some_iff.1 hw
  obtain ⟨ys, ts, rfl, rfl, rfl⟩ := slice?_eq_some_iff.1 hu
  exact slice?_eq_some_iff.2 ⟨xs ++ ys, ts ++ zs, by simp, by simp, by omega⟩

/-- Two slices over one range are the same. -/
theorem slice?_inj (hu : slice? text i j = some u) (hv : slice? text i j = some v) : u = v :=
  Option.some.inj (hu.symm.trans hv)

/-! ### Cuts behind a prefix -/

theorem takeBytes_zero (text : Text) : takeBytes 0 text = [] := by
  cases text with
  | nil => rfl
  | cons c rest =>
      have := c.utf8Size_pos
      rw [takeBytes, if_neg (by omega)]

/-- What fits behind a whole prefix. -/
theorem takeBytes_add (xs ys : Text) (n : Nat) :
    takeBytes (byteLength xs + n) (xs ++ ys) = xs ++ takeBytes n ys := by
  induction xs with
  | nil => rw [byteLength_nil, Nat.zero_add, List.nil_append, List.nil_append]
  | cons c cs ih =>
      rw [byteLength_cons, List.cons_append, takeBytes, if_pos (by omega), List.cons_append, ← ih]
      congr 2
      omega

end Tessera
