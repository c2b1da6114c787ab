/-
**Numbers of names.**

A table keeps the names in a row and the number of each name, and the two must say the same: the name
with a number is the one that has this number.  A name that is seen again changes neither; a name that
is seen first is put at the end of the row, and its number is the length that the row had.  So the names
stand in the row in the order in which they were seen first, none of them twice, and what stands in the
row stays there.

Main definitions:

* `Tessera.NameTable.internAll` — a table after names were seen one after the other;
* `Tessera.NameTable.Knows` — the names and the numbers of a table are those of a list of names;
* `Tessera.NameTable.Numbered` — what the table says after a run.

Main results:

* `Tessera.NameTable.Knows.intern` — **one more name**;
* `Tessera.NameTable.Knows.internAll` — **any number of names**;
* `Tessera.NameTable.numbered_run` — names have numbers, and numbers have names, from an empty table on.
-/

import Mathlib.Data.Finset.Card
import Tessera.Names

set_option autoImplicit false

namespace Tessera

/-- A list has no fewer different members when it goes on. -/
theorem card_toFinset_le_append {α : Type} [DecidableEq α] (l l' : List α) :
    l.toFinset.card ≤ (l ++ l').toFinset.card := by
  rw [List.toFinset_append]
  exact Finset.card_le_card Finset.subset_union_left

namespace NameTable

variable {t : NameTable} {seen calls : List String} {name other : String} {s : Symbol}

/-! ### Runs -/

/-- Sees names one after the other.  The result has the number that was answered for each, and the table
afterwards. -/
def internAll (t : NameTable) : List String → List Symbol × NameTable
  | [] => ([], t)
  | name :: names =>
      let (s, t) := t.intern name
      let (symbols, t) := t.internAll names
      (s :: symbols, t)

theorem internAll_cons (t : NameTable) (name : String) (names : List String) :
    t.internAll (name :: names) =
      ((t.intern name).1 :: ((t.intern name).2.internAll names).1,
        ((t.intern name).2.internAll names).2) := rfl

/-- A name that has a number keeps it, and the table stays as it is. -/
theorem intern_of_find? (h : t.find? name = some s) : t.intern name = (s, t) := by
  rw [find?] at h
  rw [intern, h]

/-- A name without a number is put at the end of the row. -/
theorem intern_of_find?_none (h : t.find? name = none) (hsize : t.size < symbolCount) :
    t.intern name = (t.size, ⟨t.names.push name, t.numbers.insert name t.size⟩) := by
  rw [find?] at h
  have hmod : t.names.size % symbolCount = t.size := Nat.mod_eq_of_lt hsize
  rw [intern, h]
  simp only [hmod]

/-- The row only grows at its end. -/
theorem names_intern (t : NameTable) (name : String) :
    t.names.toList <+: (t.intern name).2.names.toList := by
  rw [intern]
  split
  · exact List.prefix_rfl
  · exact ⟨[name], Array.toList_push.symm⟩

theorem names_internAll (t : NameTable) (names : List String) :
    t.names.toList <+: (t.internAll names).2.names.toList := by
  induction names generalizing t with
  | nil => exact List.prefix_rfl
  | cons name names ih =>
      rw [internAll_cons]
      exact (t.names_intern name).trans (ih _)

/-- **What a number stands for does not change**, whichever names are seen later. -/
theorem resolve?_internAll (names : List String) (hs : s < t.size) :
    (t.internAll names).2.resolve? s = t.resolve? s := by
  obtain ⟨added, hadded⟩ := t.names_internAll names
  rw [resolve?, resolve?, ← Array.getElem?_toList, ← Array.getElem?_toList, ← hadded]
  exact List.getElem?_append_left hs

/-! ### Names and numbers -/

/-- The table has the names of a list, in the order in which they come first, and each has as its number
the place where it stands. -/
structure Knows (t : NameTable) (seen : List String) : Prop where
  inverse : ∀ name s, t.find? name = some s ↔ t.resolve? s = some name
  known : ∀ name, name ∈ t.names.toList ↔ name ∈ seen
  order : t.names.toList.Pairwise fun name other => seen.idxOf name < seen.idxOf other

theorem knows_empty : empty.Knows [] where
  inverse name s := by simp [empty, find?, resolve?]
  known name := Iff.rfl
  order := .nil

namespace Knows

theorem nodup (h : t.Knows seen) : t.names.toList.Nodup := by
  refine h.order.imp ?_
  rintro name _ hlt rfl
  exact Nat.lt_irrefl _ hlt

/-- There are as many names in the table as different names were seen. -/
theorem size_eq (h : t.Knows seen) : t.size = seen.toFinset.card := by
  have hsame : t.names.toList.toFinset = seen.toFinset := by
    ext name
    rw [List.mem_toFinset, List.mem_toFinset, h.known]
  rw [← hsame, List.toFinset_card_of_nodup h.nodup]
  rfl

/-- Exactly the names that were seen have a number. -/
theorem exists_find? (h : t.Knows seen) : (∃ s, t.find? name = some s) ↔ name ∈ seen := by
  rw [← h.known, List.mem_iff_getElem?]
  exact exists_congr fun s => (h.inverse name s).trans (by rw [resolve?, Array.getElem?_toList])

theorem find?_eq_none (h : t.Knows seen) : t.find? name = none ↔ name ∉ seen := by
  rw [← h.exists_find?, not_exists, Option.eq_none_iff_forall_ne_some]

/-- Numbers are in the order of the names. -/
theorem lt_iff {s s' : Symbol} (h : t.Knows seen) (hs : t.resolve? s = some name)
    (hs' : t.resolve? s' = some other) : s < s' ↔ seen.idxOf name < seen.idxOf other := by
  have hlt : ∀ {s s' : Symbol} {name other : String}, t.resolve? s = some name →
      t.resolve? s' = some other → s < s' → seen.idxOf name < seen.idxOf other := by
    intro s s' name other hs hs' hlt
    rw [resolve?, ← Array.getElem?_toList] at hs hs'
    obtain ⟨hsize, rfl⟩ := List.getElem?_eq_some_iff.1 hs
    obtain ⟨hsize', rfl⟩ := List.getElem?_eq_some_iff.1 hs'
    exact List.pairwise_iff_getElem.1 h.order s s' hsize hsize' hlt
  refine ⟨hlt hs hs', fun hidx => ?_⟩
  rcases Nat.lt_trichotomy s s' with h' | rfl | h'
  · exact h'
  · cases hs.symm.trans hs'
    exact absurd hidx (Nat.lt_irrefl _)
  · exact absurd hidx (Nat.lt_asymm (hlt hs' hs h'))

/-- The names of the table stay in order when one more name is seen. -/
theorem order_append (h : t.Knows seen) (new : String) :
    t.names.toList.Pairwise fun name other =>
      (seen ++ [new]).idxOf name < (seen ++ [new]).idxOf other := by
  refine h.order.imp_of_mem fun hname hother hlt => ?_
  rwa [List.idxOf_append_of_mem ((h.known _).1 hname),
    List.idxOf_append_of_mem ((h.known _).1 hother)]

/-- A name that is seen again changes nothing. -/
theorem again (h : t.Knows seen) (hname : name ∈ seen) : t.Knows (seen ++ [name]) where
  inverse := h.inverse
  known other := by
    rw [h.known, List.mem_append, List.mem_singleton]
    exact ⟨.inl, fun hother => hother.elim id fun heq => heq ▸ hname⟩
  order := h.order_append name

/-- A name that is seen first stands at the end. -/
theorem first (h : t.Knows seen) (hname : name ∉ seen) :
    Knows ⟨t.names.push name, t.numbers.insert name t.size⟩ (seen ++ [name]) where
  inverse other s := by
    have hnone := h.find?_eq_none.2 hname
    have hold := h.inverse other s
    rw [find?] at hnone hold
    rw [resolve?] at hold
    have hnumber : (t.numbers.insert name t.size)[other]? =
        if name = other then some t.size else t.numbers[other]? := by
      rw [Std.HashMap.getElem?_insert]
      simp only [beq_iff_eq]
    rw [find?, resolve?, hnumber, Array.getElem?_push]
    change _ ↔ (if s = t.size then some name else t.names[s]?) = some other
    by_cases hother : name = other
    · subst hother
      have hnot : t.names[s]? ≠ some name := fun heq => by rw [hold.2 heq] at hnone; cases hnone
      simp only [if_pos, Option.some.injEq]
      by_cases hs : s = t.size
      · simp [hs]
      · simp [hs, Ne.symm hs, hnot]
    · rw [if_neg hother, hold]
      by_cases hs : s = t.size
      · subst hs
        have hend : t.names[t.size]? = none := Array.getElem?_eq_none (Nat.le_refl _)
        simp [hend, hother]
      · rw [if_neg hs]
  known other := by
    rw [Array.toList_push, List.mem_append, List.mem_append, h.known]
  order := by
    rw [Array.toList_push, List.pairwise_append]
    refine ⟨h.order_append name, List.pairwise_singleton .., ?_⟩
    intro other hother new hnew
    rw [List.mem_singleton.1 hnew, List.idxOf_append_of_mem ((h.known _).1 hother),
      List.idxOf_append_of_notMem hname]
    exact Nat.lt_add_right _ (List.idxOf_lt_length_iff.2 ((h.known _).1 hother))

/-- **One more name.**  The table knows it as well, and answers the number that it has from now on. -/
theorem intern (h : t.Knows seen) (hroom : (seen ++ [name]).toFinset.card ≤ symbolCount) :
    (t.intern name).2.Knows (seen ++ [name]) ∧
      (t.intern name).2.find? name = some (t.intern name).1 := by
  by_cases hname : name ∈ seen
  · obtain ⟨s, hs⟩ := h.exists_find?.2 hname
    rw [intern_of_find? hs]
    exact ⟨h.again hname, hs⟩
  · have hfirst := h.first hname
    have hsize : t.size < symbolCount := by
      have hcard := hfirst.size_eq
      rw [size, Array.size_push] at hcard
      exact Nat.lt_of_lt_of_le (Nat.lt_of_succ_le hcard.le) hroom
    rw [intern_of_find?_none (h.find?_eq_none.2 hname) hsize]
    refine ⟨hfirst, (hfirst.inverse _ _).2 ?_⟩
    rw [resolve?]
    exact Array.getElem?_push_size

/-- **Any number of names.**  The table knows them as well, and each number that was answered is the one
that the name has at the end. -/
theorem internAll (h : t.Knows seen) (hroom : (seen ++ calls).toFinset.card ≤ symbolCount) :
    (t.internAll calls).2.Knows (seen ++ calls) ∧
      (t.internAll calls).1.map some = calls.map (t.internAll calls).2.find? := by
  induction calls generalizing t seen with
  | nil => exact ⟨by rwa [List.append_nil], rfl⟩
  | cons name calls ih =>
      have hsplit : seen ++ name :: calls = (seen ++ [name]) ++ calls := by simp
      rw [hsplit] at hroom
      obtain ⟨hknows, hfind⟩ := h.intern ((card_toFinset_le_append _ _).trans hroom)
      obtain ⟨hknows', hanswers⟩ := ih hknows hroom
      rw [internAll_cons, hsplit]
      refine ⟨hknows', ?_⟩
      rw [List.map_cons, List.map_cons, hanswers]
      -- the first name has kept its number
      have hresolve := (hknows.inverse _ _).1 hfind
      obtain ⟨hlt, -⟩ := Array.getElem?_eq_some_iff.1 hresolve
      rw [← resolve?_internAll calls hlt, ← hknows'.inverse] at hresolve
      rw [hresolve]

end Knows

/-! ### What is answered -/

/-- What was answered for a name is the number that the name has. -/
theorem mem_zip_iff {symbols : List Symbol} (h : symbols.map some = calls.map t.find?) :
    (name, s) ∈ calls.zip symbols ↔ name ∈ calls ∧ t.find? name = some s := by
  induction calls generalizing symbols with
  | nil => simp
  | cons first calls ih =>
      cases symbols with
      | nil => simp at h
      | cons answer symbols =>
          obtain ⟨hanswer, hrest⟩ := List.cons.inj h
          rw [List.zip_cons_cons, List.mem_cons, List.mem_cons, ih hrest, Prod.mk.injEq]
          constructor
          · rintro (⟨rfl, rfl⟩ | ⟨hname, hfind⟩)
            · exact ⟨.inl rfl, hanswer.symm⟩
            · exact ⟨.inr hname, hfind⟩
          · rintro ⟨rfl | hname, hfind⟩
            · exact .inl ⟨rfl, Option.some.inj (hfind.symm.trans hanswer.symm)⟩
            · exact .inr ⟨hname, hfind⟩

/-- What a table says after names were seen one after the other, and a number was answered for each. -/
structure Numbered (calls : List String) (symbols : List Symbol) (t : NameTable) : Prop where
  /-- A number was answered each time. -/
  length_eq : symbols.length = calls.length
  /-- The table has as many names as different ones were seen. -/
  size_eq : t.size = calls.toFinset.card
  /-- The numbers that were answered are those from zero up to the number of names. -/
  dense : ∀ s, s ∈ symbols ↔ s < t.size
  /-- The numbers are in the order in which the names were seen first. -/
  order : ∀ name s other s', (name, s) ∈ calls.zip symbols → (other, s') ∈ calls.zip symbols →
    (s < s' ↔ calls.idxOf name < calls.idxOf other)
  /-- The same number was answered for the same name, and for no other. -/
  same : ∀ name s other s', (name, s) ∈ calls.zip symbols → (other, s') ∈ calls.zip symbols →
    (s = s' ↔ name = other)
  /-- Behind a number that was answered for a name is this name. -/
  resolve : ∀ name s, (name, s) ∈ calls.zip symbols → t.resolve? s = some name
  /-- There is a name behind the numbers of the table, and behind no other. -/
  resolve_none : ∀ s, t.resolve? s = none ↔ t.size ≤ s
  /-- The number of a name is the one that was answered for it. -/
  find : ∀ name s, t.find? name = some s ↔ (name, s) ∈ calls.zip symbols
  /-- A name that was not seen has no number. -/
  find_none : ∀ name, t.find? name = none ↔ name ∉ calls
  /-- The names behind the numbers of the table stay, whichever names are seen later. -/
  later : ∀ names, ∀ s < t.size, (t.internAll names).2.resolve? s = t.resolve? s

theorem Knows.numbered {symbols : List Symbol} (h : t.Knows calls)
    (hanswers : symbols.map some = calls.map t.find?) : Numbered calls symbols t := by
  have hzip : ∀ name s, (name, s) ∈ calls.zip symbols ↔ t.find? name = some s := by
    intro name s
    rw [mem_zip_iff hanswers, and_iff_right_iff_imp]
    exact fun hs => h.exists_find?.1 ⟨s, hs⟩
  have hlength : symbols.length = calls.length := by
    simpa using congrArg List.length hanswers
  have hresolve : ∀ name s, (name, s) ∈ calls.zip symbols → t.resolve? s = some name :=
    fun name s hs => (h.inverse name s).1 ((hzip name s).1 hs)
  refine ⟨hlength, h.size_eq, fun s => ?_, fun name s other s' hs hs' =>
    h.lt_iff (hresolve _ _ hs) (hresolve _ _ hs'), fun name s other s' hs hs' => ⟨?_, ?_⟩, hresolve,
    fun s => Array.getElem?_eq_none_iff, fun name s => (hzip name s).symm,
    fun name => h.find?_eq_none, fun names s => resolve?_internAll names⟩
  · constructor
    · intro hs
      obtain ⟨i, hi, rfl⟩ := List.getElem_of_mem hs
      have hi' : i < calls.length := hlength ▸ hi
      have hmem : (calls[i], symbols[i]) ∈ calls.zip symbols :=
        List.mem_iff_getElem.2 ⟨i, by simp [hi, hi'], by simp⟩
      exact (Array.getElem?_eq_some_iff.1 (hresolve _ _ hmem)).1
    · intro hs
      have hname : t.resolve? s = some t.names[s] := Array.getElem?_eq_getElem hs
      exact (List.of_mem_zip ((hzip _ _).2 ((h.inverse _ _).2 hname))).2
  · rintro rfl
    exact Option.some.inj ((hresolve _ _ hs).symm.trans (hresolve _ _ hs'))
  · rintro rfl
    exact Option.some.inj (((hzip _ _).1 hs).symm.trans ((hzip _ _).1 hs'))

/-- **Names have numbers, and numbers have names.**  From the empty table on, whichever names are seen
one after the other, as long as there are fewer different ones than numbers: the numbers that are
answered count up from zero in the order in which the names are seen first, the same one for the same
name and for no other; the table finds the number of each name that was seen and the name behind each
number that was answered, and no others; and names that are seen later do not change what is behind a
number. -/
theorem numbered_run (calls : List String) (h : calls.toFinset.card < symbolCount) :
    Numbered calls (empty.internAll calls).1 (empty.internAll calls).2 := by
  have hroom : ([] ++ calls).toFinset.card ≤ symbolCount := h.le
  obtain ⟨hknows, hanswers⟩ := knows_empty.internAll hroom
  exact hknows.numbered hanswers

/-- One name is seen twice, with another one in between. -/
theorem numbered_run_twice :
    ["tag", "body", "tag"].toFinset.card < symbolCount ∧
      Numbered ["tag", "body", "tag"] [0, 1, 0] (empty.internAll ["tag", "body", "tag"]).2 := by
  have hcard : ["tag", "body", "tag"].toFinset.card < symbolCount := by decide
  have hanswers : (empty.internAll ["tag", "body", "tag"]).1 = [0, 1, 0] := by cbv
  exact ⟨hcard, hanswers ▸ numbered_run _ hcard⟩

end NameTable

end Tessera
