/-
**Line breaks and lines.**

Line feeds and carriage returns break lines.  Texts are put together from parts, and the breaks of the
whole are the breaks of the parts in order, so it is enough to know which parts have any: numbers,
quoted texts and texts in which breaks are spelled out have none.

A text is read line by line, and a line feed ends a line.  So a text that is put together from lines,
each with a line feed after it, has as many lines as there are line feeds in it, and they are the lines
that were put down exactly if none of them has a line feed inside.

Main definitions:

* `Tessera.breaks` — the line breaks of a text;
* `Tessera.lines` — the lines of a text.

Main results:

* `Tessera.breaks_quote`, `Tessera.breaks_escapeBreaks` — **what is quoted or spelled out has no line
  breaks**;
* `Tessera.length_lines_terminated` — the number of lines of a text that is put together from lines;
* `Tessera.lines_terminated` — **lines that were put down are read again.**
-/

import Mathlib.Algebra.BigOperators.Group.List.Basic
import Mathlib.Algebra.GroupWithZero.Nat
import Tessera.Grammar.Rule
import Tessera.Text.Excerpt
import Tessera.Text.Location
import Tessera.Text.Quoted

set_option autoImplicit false

namespace Tessera

/-! ### Line breaks -/

/-- Line feeds and carriage returns break lines. -/
def isBreak (c : Char) : Bool := c == '\n' || c == '\r'

/-- The line breaks of a text, in order. -/
def breaks (text : Text) : Text := text.filter isBreak

@[simp] theorem breaks_nil : breaks [] = [] := rfl

@[simp] theorem breaks_append (xs ys : Text) : breaks (xs ++ ys) = breaks xs ++ breaks ys :=
  List.filter_append xs ys

theorem breaks_cons (c : Char) (cs : Text) : breaks (c :: cs) = breaks [c] ++ breaks cs :=
  breaks_append [c] cs

theorem breaks_eq_nil_iff {text : Text} : breaks text = [] ↔ ∀ c ∈ text, isBreak c = false := by
  simp [breaks, List.filter_eq_nil_iff]

/-- The line feeds of a text are among its breaks. -/
theorem count_breaks (text : Text) : (breaks text).count '\n' = text.count '\n' :=
  List.count_filter (by decide)

/-! ### Parts without line breaks -/

/-- Words without line breaks before a text do not count. -/
theorem breaks_before {words : String} (h : breaks words.toList = []) (text : String) :
    breaks (words ++ text).toList = breaks text.toList := by
  rw [String.toList_append, breaks_append, h, List.nil_append]

/-- Words without line breaks after a text do not count. -/
theorem breaks_after {words : String} (h : breaks words.toList = []) (text : String) :
    breaks (text ++ words).toList = breaks text.toList := by
  rw [String.toList_append, breaks_append, h, List.append_nil]

/-- The digits of a number do not break lines. -/
theorem breaks_toDigits {b : Nat} (hb : 1 < b) (hb' : b ≤ 16) (n : Nat) :
    breaks (Nat.toDigits b n) = [] := by
  have hdigit : ∀ k < 16, breaks [Nat.digitChar k] = [] := by decide
  induction n using Nat.strongRecOn with
  | _ n ih =>
      rcases Nat.lt_or_ge n b with hlt | hge
      · rw [Nat.toDigits_of_lt_base hlt]
        exact hdigit n (Nat.lt_of_lt_of_le hlt hb')
      · rw [Nat.toDigits_of_base_le hb hge, breaks_append,
          ih _ (Nat.div_lt_self (by omega) hb), List.nil_append]
        exact hdigit _ (Nat.lt_of_lt_of_le (Nat.mod_lt _ (by omega)) hb')

@[simp] theorem breaks_natToString (n : Nat) : breaks (toString n).toList = [] := by
  rw [show (toString n).toList = Nat.toDigits 10 n by simp]
  exact breaks_toDigits (by decide) (by decide) n

@[simp] theorem breaks_display (d : DefId) : breaks d.display.toList = [] := by
  have hparts : d.display = "#" ++ toString d := rfl
  rw [hparts, breaks_before (by decide), breaks_natToString]

@[simp] theorem breaks_location (l : Location) : breaks l.display.toList = [] := by
  have hparts : l.display = toString l.line ++ ":" ++ toString l.column := rfl
  rw [hparts, breaks_after (breaks_natToString _), breaks_after (by decide), breaks_natToString]

/-- **Where breaks are spelled out, there are none.** -/
@[simp] theorem breaks_escapeBreaks (text : Text) : breaks (escapeBreaks text) = [] := by
  fun_induction escapeBreaks text with
  | case1 => rfl
  | case2 cs ih => exact ih
  | case3 cs ih => exact ih
  | case4 c cs hfeed hreturn ih =>
      have hc : isBreak c = false := by simp_all [isBreak]
      rw [breaks_cons, ih, List.append_nil]
      exact breaks_eq_nil_iff.2 (by simpa using hc)

/-- A character inside a quoted text does not break the line. -/
theorem breaks_quoteChar (c : Char) : breaks (quoteChar c) = [] := by
  unfold quoteChar
  split
  case h_7 _ _ _ hfeed hreturn _ _ =>
    split
    · exact breaks_eq_nil_iff.2 (by simp_all [isBreak])
    · simp only [numberedChar, breaks_append, breaks_toDigits (b := 16) (by decide) (by decide)]
      decide
  all_goals decide

/-- **A quoted text has no line breaks**, whatever text it is. -/
@[simp] theorem breaks_quote (text : Text) : breaks (quote text) = [] := by
  have hall : breaks (text.flatMap quoteChar) = [] := by
    refine breaks_eq_nil_iff.2 fun c hc => ?_
    obtain ⟨x, -, hx⟩ := List.mem_flatMap.1 hc
    exact breaks_eq_nil_iff.1 (breaks_quoteChar x) c hx
  rw [quote, List.cons_append, breaks_cons, breaks_append, hall]
  decide

/-! ### Lines -/

/-- The lines of a text; a line feed ends a line. -/
def lines : Text → List Text
  | [] => []
  | c :: cs =>
      if c = '\n' then [] :: lines cs
      else
        match lines cs with
        | [] => [[c]]
        | line :: rest => (c :: line) :: rest

/-- Lines with a line feed after each of them. -/
def terminated (ls : List Text) : Text := (ls.map (· ++ ['\n'])).flatten

/-- A line without line feed, with a line feed after it, is read again. -/
theorem lines_append {line : Text} (h : '\n' ∉ line) (rest : Text) :
    lines (line ++ '\n' :: rest) = line :: lines rest := by
  induction line with
  | nil => simp [lines]
  | cons c cs ih =>
      obtain ⟨hc, hcs⟩ := not_or.1 (mt List.mem_cons.2 h)
      simp [lines, Ne.symm hc, ih hcs]

/-- A line feed begins a new line, whatever stands before it. -/
theorem length_lines_append (text rest : Text) :
    (lines (text ++ '\n' :: rest)).length = text.count '\n' + 1 + (lines rest).length := by
  induction text with
  | nil => simp [lines]; omega
  | cons c cs ih =>
      by_cases hc : c = '\n'
      · subst hc
        simp [lines, ih]
        omega
      · rw [List.count_cons_of_ne hc, ← ih, List.cons_append, lines, if_neg hc]
        -- the rest has a line, so the first character does not begin another one
        cases hrest : lines (cs ++ '\n' :: rest) with
        | nil => simp [hrest] at ih; omega
        | cons line ls => rfl

/-- A text that is put together from lines has those lines and one more for each line feed inside of
them. -/
theorem length_lines_terminated (ls : List Text) :
    (lines (terminated ls)).length = ls.length + (ls.map (List.count '\n')).sum := by
  induction ls with
  | nil => rfl
  | cons line ls ih =>
      have hsplit : terminated (line :: ls) = line ++ '\n' :: terminated ls := by
        simp [terminated]
      rw [hsplit, length_lines_append, ih, List.length_cons, List.map_cons, List.sum_cons]
      omega

/-- **Lines that were put down are read again**, if none has a line feed inside. -/
theorem lines_terminated {ls : List Text} (h : ∀ line ∈ ls, '\n' ∉ line) :
    lines (terminated ls) = ls := by
  induction ls with
  | nil => rfl
  | cons line ls ih =>
      obtain ⟨hline, hls⟩ := List.forall_mem_cons.1 h
      have hsplit : terminated (line :: ls) = line ++ '\n' :: terminated ls := by
        simp [terminated]
      rw [hsplit, lines_append hline, ih hls]

end Tessera
