/-
**Texts in a row.**

A language is a set of texts.  Texts of several languages can stand in a row, texts of one language
can be repeated, and separators can stand between the items of a row.

Main definitions:

* `Tessera.InRow` — one text of each language, in order;
* `Tessera.Repeated` — as many texts of a language as the bounds admit;
* `Tessera.interleave` — the members of two lists in turn.

Main results:

* `Tessera.flatten_interleave` — **items with separators between them are one item and then separators
  and items**.
-/

import Mathlib.Data.List.Forall2
import Tessera.Text.Bytes

set_option autoImplicit false

namespace Tessera

variable {L K : Text → Prop} {Ls : List (Text → Prop)} {w : Text}

/-! ### One text of each language -/

/-- Texts of several languages in a row. -/
def InRow (Ls : List (Text → Prop)) (w : Text) : Prop :=
  ∃ ws, List.Forall₂ (fun L u => L u) Ls ws ∧ w = ws.flatten

theorem inRow_nil : InRow [] w ↔ w = [] := by
  constructor
  · rintro ⟨_, ⟨⟩, rfl⟩
    rfl
  · rintro rfl
    exact ⟨[], .nil, rfl⟩

theorem inRow_cons : InRow (L :: Ls) w ↔ ∃ u v, w = u ++ v ∧ L u ∧ InRow Ls v := by
  constructor
  · rintro ⟨ws, hws, rfl⟩
    cases hws with
    | cons hu hws => exact ⟨_, _, rfl, hu, _, hws, rfl⟩
  · rintro ⟨u, _, rfl, hu, ws, hws, rfl⟩
    exact ⟨u :: ws, .cons hu hws, rfl⟩

/-- Two texts in a row. -/
theorem inRow_pair : InRow [L, K] w ↔ ∃ u v, w = u ++ v ∧ L u ∧ K v := by
  constructor
  · intro h
    obtain ⟨u, v, rfl, hu, h⟩ := inRow_cons.1 h
    obtain ⟨v, v', rfl, hv, h⟩ := inRow_cons.1 h
    obtain rfl := inRow_nil.1 h
    exact ⟨u, v, by rw [List.append_nil], hu, hv⟩
  · rintro ⟨u, v, rfl, hu, hv⟩
    refine inRow_cons.2 ⟨u, v, rfl, hu, ?_⟩
    exact inRow_cons.2 ⟨v, [], (List.append_nil v).symm, hv, inRow_nil.2 rfl⟩

theorem InRow.mono {Ks : List (Text → Prop)} (hLK : List.Forall₂ (fun L K => ∀ w, L w → K w) Ls Ks)
    (h : InRow Ls w) : InRow Ks w := by
  induction hLK generalizing w with
  | nil => exact h
  | cons hLK _ ih =>
      obtain ⟨u, v, rfl, hu, hv⟩ := inRow_cons.1 h
      exact inRow_cons.2 ⟨u, v, rfl, hLK u hu, ih hv⟩

/-! ### Several texts of a language -/

/-- Several texts of a language in a row, as many as the bounds admit. -/
def Repeated (L : Text → Prop) (min : Nat) (max : Option Nat) (w : Text) : Prop :=
  ∃ ws : List Text, min ≤ ws.length ∧ (∀ m, max = some m → ws.length ≤ m) ∧
    (∀ u ∈ ws, L u) ∧ w = ws.flatten

theorem Repeated.mono (hLK : ∀ w, L w → K w) {min : Nat} {max : Option Nat}
    (h : Repeated L min max w) : Repeated K min max w := by
  obtain ⟨ws, hmin, hmax, hall, rfl⟩ := h
  exact ⟨ws, hmin, hmax, fun u hu => hLK u (hall u hu), rfl⟩

/-! ### Items and separators -/

/-- The members of two lists in turn, beginning with the first list. -/
def interleave {α : Type} : List α → List α → List α
  | [], ys => ys
  | xs, [] => xs
  | x :: xs, y :: ys => x :: y :: interleave xs ys

theorem mem_of_mem_interleave {α : Type} {x : α} :
    ∀ {xs ys : List α}, x ∈ interleave xs ys → x ∈ xs ∨ x ∈ ys
  | [], _, h => .inr (by simpa [interleave] using h)
  | _ :: _, [], h => .inl (by simpa [interleave] using h)
  | x' :: xs, y :: ys, h => by
      simp only [interleave, List.mem_cons] at h ⊢
      rcases h with h | h | h
      · exact .inl (.inl h)
      · exact .inr (.inl h)
      · exact (mem_of_mem_interleave h).imp .inr .inr

theorem map_interleave {α β : Type} (f : α → β) (xs ys : List α) :
    (interleave xs ys).map f = interleave (xs.map f) (ys.map f) := by
  induction xs generalizing ys with
  | nil => rfl
  | cons x xs ih =>
      cases ys with
      | nil => rfl
      | cons y ys => simp [interleave, ih]

theorem mem_interleave_iff {α : Type} {x : α} {xs ys : List α} :
    x ∈ interleave xs ys ↔ x ∈ xs ∨ x ∈ ys := by
  refine ⟨mem_of_mem_interleave, fun h => ?_⟩
  induction xs generalizing ys with
  | nil => simpa [interleave] using h
  | cons x' xs ih =>
      cases ys with
      | nil => simpa [interleave] using h
      | cons y ys =>
          have := @ih ys
          simp only [interleave, List.mem_cons] at h ⊢
          tauto

/-- Items with separators between them are one item and then separators and items. -/
theorem flatten_interleave {u : Text} {us vs : List Text} (h : vs.length = us.length) :
    (interleave (u :: us) vs).flatten = u ++ (List.zipWith (· ++ ·) vs us).flatten := by
  induction us generalizing u vs with
  | nil =>
      obtain rfl := List.length_eq_zero_iff.1 h
      simp [interleave]
  | cons u' us ih =>
      rcases vs with _ | ⟨v, vs⟩
      · simp at h
      · have hrest : (interleave (u' :: us) vs).flatten =
            u' ++ (List.zipWith (· ++ ·) vs us).flatten := ih (by simpa using h)
        simp only [interleave, List.flatten_cons, List.zipWith_cons_cons, hrest, List.append_assoc]

/-- Items of a language with separators of another one between them. -/
theorem inRow_of_interleave {us vs : List Text} {min : Nat} {max : Option Nat}
    (hmin : min ≤ us.length) (hmax : ∀ m, max = some m → us.length ≤ m)
    (hlength : vs.length = us.length - 1) (hus : ∀ u ∈ us, L u) (hvs : ∀ v ∈ vs, K v) :
    (us = [] ∧ min = 0 ∧ (interleave us vs).flatten = []) ∨
      InRow [L, Repeated (InRow [K, L]) (min - 1) (max.map (· - 1))] (interleave us vs).flatten := by
  rcases us with _ | ⟨u, us⟩
  · obtain rfl := List.length_eq_zero_iff.1 hlength
    exact .inl ⟨rfl, Nat.le_zero.1 hmin, rfl⟩
  · obtain ⟨hu, hus⟩ := List.forall_mem_cons.1 hus
    rw [List.length_cons, Nat.add_sub_cancel] at hlength
    refine .inr (inRow_pair.2 ⟨u, _, flatten_interleave hlength, hu, ?_⟩)
    refine ⟨List.zipWith (· ++ ·) vs us, ?_, ?_, ?_, rfl⟩
    · simp only [List.length_zipWith, hlength, List.length_cons] at hmin ⊢
      omega
    · rintro m hm
      obtain ⟨m', rfl, rfl⟩ := Option.map_eq_some_iff.1 hm
      have := hmax m' rfl
      simp only [List.length_zipWith, hlength, List.length_cons] at this ⊢
      omega
    · intro x hx
      obtain ⟨i, hi, rfl⟩ := List.getElem_of_mem hx
      rw [List.getElem_zipWith]
      exact inRow_pair.2 ⟨_, _, rfl, hvs _ (List.getElem_mem _), hus _ (List.getElem_mem _)⟩

/-- Pairs of a separator and an item are as many separators as items. -/
theorem exists_zipWith_of_pairs {xs : List Text} (h : ∀ x ∈ xs, InRow [K, L] x) :
    ∃ us vs : List Text, us.length = xs.length ∧ vs.length = xs.length ∧ (∀ u ∈ us, L u) ∧
      (∀ v ∈ vs, K v) ∧ List.zipWith (· ++ ·) vs us = xs := by
  induction xs with
  | nil => exact ⟨[], [], rfl, rfl, List.forall_mem_nil _, List.forall_mem_nil _, rfl⟩
  | cons x xs ih =>
      obtain ⟨hx, hxs⟩ := List.forall_mem_cons.1 h
      obtain ⟨v, u, rfl, hv, hu⟩ := inRow_pair.1 hx
      obtain ⟨us, vs, hus, hvs, hL, hK, rfl⟩ := ih hxs
      refine ⟨u :: us, v :: vs, congrArg (· + 1) hus, congrArg (· + 1) hvs, ?_, ?_, rfl⟩
      · exact List.forall_mem_cons.2 ⟨hu, hL⟩
      · exact List.forall_mem_cons.2 ⟨hv, hK⟩

/-- One item, and then separators and items, are items with separators between them. -/
theorem exists_interleave_of_inRow {min : Nat} {max : Option Nat} (hmax : ∀ m, max = some m → 0 < m)
    (h : InRow [L, Repeated (InRow [K, L]) (min - 1) (max.map (· - 1))] w) :
    ∃ us vs : List Text, min ≤ us.length ∧ (∀ m, max = some m → us.length ≤ m) ∧
      vs.length = us.length - 1 ∧ (∀ u ∈ us, L u) ∧ (∀ v ∈ vs, K v) ∧
        w = (interleave us vs).flatten := by
  obtain ⟨u, _, rfl, hu, xs, hless, hmore, hxs, rfl⟩ := inRow_pair.1 h
  obtain ⟨us, vs, hus, hvs, hL, hK, rfl⟩ := exists_zipWith_of_pairs hxs
  refine ⟨u :: us, vs, ?_, ?_, ?_, List.forall_mem_cons.2 ⟨hu, hL⟩, hK, ?_⟩
  · rw [List.length_cons]
    omega
  · intro m hm
    have hpos := hmax m hm
    have hlength := hmore (m - 1) (by rw [hm]; rfl)
    rw [List.length_cons]
    omega
  · rw [List.length_cons]
    omega
  · exact (flatten_interleave (by omega)).symm

/-- **Items with separators between them**: nothing, or one item and then separators and items. -/
theorem exists_interleave_iff {min : Nat} {max : Option Nat} (hmax : ∀ m, max = some m → 0 < m) :
    (∃ us vs : List Text, min ≤ us.length ∧ (∀ m, max = some m → us.length ≤ m) ∧
      vs.length = us.length - 1 ∧ (∀ u ∈ us, L u) ∧ (∀ v ∈ vs, K v) ∧
        w = (interleave us vs).flatten) ↔
      (min = 0 ∧ w = []) ∨ InRow [L, Repeated (InRow [K, L]) (min - 1) (max.map (· - 1))] w := by
  constructor
  · rintro ⟨us, vs, hless, hmore, hlength, hus, hvs, rfl⟩
    exact (inRow_of_interleave hless hmore hlength hus hvs).imp (fun h => h.2) id
  · rintro (⟨rfl, rfl⟩ | h)
    · exact ⟨[], [], by simp [interleave]⟩
    · exact exists_interleave_of_inRow hmax h

end Tessera
