/-
**Positions and offsets.**

A position counts characters and an offset counts bytes.  Both stand for a way to cut the text in
two, and what the search for matches says about positions is said here about cuts.

Main definitions:

* `Tessera.Ascending` — offsets in ascending order.

Main results:

* `Tessera.mem_offsetsOf` — the offsets of a set of positions;
* `Tessera.getD_flagged` — the flags of a list of offsets;
* `Tessera.mem_found` — the boundaries that a matcher finds;
* `Tessera.Matcher.prefixEnds_ascending` — the ends of matching prefixes come in order;
* `Tessera.Matcher.prefixEnds_isBoundary` — **a matching prefix ends at a boundary**.
-/

import Tessera.Pattern.Standard

set_option autoImplicit false

namespace Tessera

/-! ### Offsets of positions -/

/-- An offset belongs to a set of positions when the text can be cut there after a member. -/
theorem mem_offsetsOf {positions offset e : Nat} {text : Text} :
    e ∈ offsetsOf positions offset text ↔
      ∃ xs ys, text = xs ++ ys ∧ e = offset + byteLength xs ∧
        positions.testBit xs.length = true := by
  induction text generalizing positions offset with
  | nil =>
      rw [offsetsOf]
      constructor
      · intro h
        split at h
        · next hbit => exact ⟨[], [], rfl, by simpa using h, hbit⟩
        · simp at h
      · rintro ⟨xs, ys, hcut, rfl, hbit⟩
        obtain ⟨rfl, rfl⟩ := List.append_eq_nil_iff.1 hcut.symm
        rw [if_pos (by simpa using hbit)]
        simp
  | cons c cs ih =>
      have hrest : e ∈ offsetsOf (positions >>> 1) (offset + c.utf8Size) cs ↔
          ∃ xs ys, cs = xs ++ ys ∧ e = offset + c.utf8Size + byteLength xs ∧
            positions.testBit (xs.length + 1) = true := by
        rw [ih]
        simp only [Nat.testBit_shiftRight, Nat.add_comm]
      have hmem : e ∈ offsetsOf positions offset (c :: cs) ↔
          (e = offset ∧ positions.testBit 0 = true) ∨
            e ∈ offsetsOf (positions >>> 1) (offset + c.utf8Size) cs := by
        simp only [offsetsOf]
        split
        · next hbit => simp [hbit]
        · next hbit => simp [hbit]
      rw [hmem, hrest]
      constructor
      · rintro (⟨rfl, hbit⟩ | ⟨xs, ys, rfl, rfl, hbit⟩)
        · exact ⟨[], c :: cs, rfl, by simp, hbit⟩
        · exact ⟨c :: xs, ys, rfl, by simp; omega, hbit⟩
      · rintro ⟨_ | ⟨x, xs⟩, ys, hcut, rfl, hbit⟩
        · exact .inl ⟨by simp, hbit⟩
        · obtain ⟨rfl, rfl⟩ := List.cons.inj hcut
          exact .inr ⟨xs, ys, rfl, by simp; omega, hbit⟩

/-- The offset of a cut belongs to a set of positions when the position of the cut does. -/
theorem byteLength_mem_offsetsOf {positions : Nat} {xs ys : Text} :
    byteLength xs ∈ offsetsOf positions 0 (xs ++ ys) ↔ positions.testBit xs.length = true := by
  rw [mem_offsetsOf]
  constructor
  · rintro ⟨us, vs, hcut, hoffset, hbit⟩
    have htake := takeBytes_append us vs
    rw [← hcut, ← Nat.zero_add (byteLength us), ← hoffset, takeBytes_append] at htake
    rwa [htake]
  · exact fun hbit => ⟨xs, ys, rfl, (Nat.zero_add _).symm, hbit⟩

/-- The boundaries of a text are where it can be cut. -/
theorem mem_boundaries {offset e : Nat} {text : Text} :
    e ∈ boundaries offset text ↔ ∃ xs ys, text = xs ++ ys ∧ e = offset + byteLength xs := by
  induction text generalizing offset with
  | nil =>
      rw [boundaries, List.mem_singleton]
      constructor
      · rintro rfl
        exact ⟨[], [], rfl, by simp⟩
      · rintro ⟨xs, ys, hcut, rfl⟩
        obtain ⟨rfl, rfl⟩ := List.append_eq_nil_iff.1 hcut.symm
        simp
  | cons c cs ih =>
      rw [boundaries, List.mem_cons, ih]
      constructor
      · rintro (rfl | ⟨xs, ys, rfl, rfl⟩)
        · exact ⟨[], c :: cs, rfl, by simp⟩
        · exact ⟨c :: xs, ys, rfl, by simp; omega⟩
      · rintro ⟨_ | ⟨x, xs⟩, ys, hcut, rfl⟩
        · exact .inl (by simp)
        · obtain ⟨rfl, rfl⟩ := List.cons.inj hcut
          exact .inr ⟨xs, ys, rfl, by simp; omega⟩

theorem mem_boundaries_zero {e : Nat} {text : Text} :
    e ∈ boundaries 0 text ↔ IsBoundary text e := by
  simp only [mem_boundaries, isBoundary_iff, Nat.zero_add]

/-! ### Offsets in order -/

/-- Offsets in ascending order, from `lo` on. -/
structure Ascending (lo : Nat) (ends : List Nat) : Prop where
  pairwise : ends.Pairwise (· < ·)
  le : ∀ e ∈ ends, lo ≤ e

theorem Ascending.filter {lo : Nat} {ends : List Nat} (h : Ascending lo ends) (p : Nat → Bool) :
    Ascending lo (ends.filter p) :=
  ⟨h.pairwise.filter p, fun e he => h.le e (List.mem_filter.1 he).1⟩

theorem boundaries_ascending (offset : Nat) (text : Text) :
    Ascending offset (boundaries offset text) := by
  induction text generalizing offset with
  | nil => exact ⟨List.pairwise_singleton _ _, by simp [boundaries]⟩
  | cons c cs ih =>
      obtain ⟨hpairwise, hle⟩ := ih (offset + c.utf8Size)
      have hpos := c.utf8Size_pos
      have hlt : ∀ e ∈ boundaries (offset + c.utf8Size) cs, offset < e :=
        fun e he => Nat.lt_of_lt_of_le (by omega) (hle e he)
      refine ⟨.cons hlt hpairwise, fun e he => ?_⟩
      rcases List.mem_cons.1 he with rfl | he
      · exact Nat.le_refl _
      · exact Nat.le_of_lt (hlt e he)

/-! ### Flags -/

/-- There is a flag for every offset up to the length. -/
theorem size_flagged (size : Nat) (offsets : List Nat) : (flagged size offsets).size = size + 1 := by
  suffices ∀ flags : Array Bool,
      (offsets.foldl (fun flags i => flags.setIfInBounds i true) flags).size = flags.size by
    rw [flagged, this, Array.size_replicate]
  intro flags
  induction offsets generalizing flags with
  | nil => rfl
  | cons i offsets ih => rw [List.foldl_cons, ih, Array.size_setIfInBounds]

/-- The flags that are set are those at the listed offsets. -/
theorem getD_flagged {size : Nat} {offsets : List Nat} {i : Nat} (hi : i ≤ size) :
    (flagged size offsets).getD i false = true ↔ i ∈ offsets := by
  suffices ∀ flags : Array Bool, i < flags.size →
      ((offsets.foldl (fun flags i => flags.setIfInBounds i true) flags).getD i false = true ↔
        flags.getD i false = true ∨ i ∈ offsets) by
    rw [flagged, this _ (by simp; omega)]
    simp only [Array.getD_eq_getD_getElem?, Array.getElem?_replicate]
    split <;> simp
  intro flags hflags
  induction offsets generalizing flags with
  | nil => simp
  | cons j js ih =>
      rw [List.foldl_cons, ih _ (by simpa using hflags)]
      simp only [Array.getD_eq_getD_getElem?, Array.getElem?_setIfInBounds, List.mem_cons]
      by_cases hj : j = i
      · subst hj; simp [hflags]
      · simp [hj, Ne.symm hj]

/-! ### Matchers -/

/-- What is found are the boundaries at which the scan shows a match, or, without a scan, those at which
the part matches. -/
theorem mem_found {exact : Option (Text → Bool)} {part : Nat → Text → Text} {scan : Option Scan}
    {text : Text} {n : Nat} :
    n ∈ found exact part scan text ↔ IsBoundary text n ∧
      match scan.bind fun s => s text with
      | some shows => shows n = true
      | none => wholeMatch exact (part n text) = true := by
  unfold found probe
  cases scan.bind fun s => s text <;> simp only [List.mem_filter, mem_boundaries_zero]

theorem found_ascending (exact : Option (Text → Bool)) (part : Nat → Text → Text)
    (scan : Option Scan) (text : Text) : Ascending 0 (found exact part scan text) := by
  unfold found probe
  split <;> exact (boundaries_ascending 0 text).filter _

namespace Matcher

variable {e : Engine} {pattern text : Text}

/-- **A matching prefix ends at a boundary**, whatever the engine and the pattern are. -/
theorem prefixEnds_isBoundary {n : Nat} (h : n ∈ (Matcher.ofPattern e pattern).prefixEnds text) :
    IsBoundary text n := (mem_found.1 h).1

/-- The ends of matching prefixes are given in ascending order. -/
theorem prefixEnds_ascending : Ascending 0 ((Matcher.ofPattern e pattern).prefixEnds text) :=
  found_ascending ..

end Matcher

end Tessera
