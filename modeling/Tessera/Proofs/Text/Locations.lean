/-
**Where an offset lies.**

The location of an offset is found by reading the text up to it.  On the way there are line breaks,
and after the last of them the beginning of a line; the number of the breaks gives the line, and the
number of characters after them the column.

Which characters make up one break is decided from left to right, and it depends on the character that
follows.  So a text that is cut between the two characters of a break still has this break, and the
reader of the whole text has passed it as well.  Therefore further reading never leads back.

Main definitions:

* `Tessera.LineBreak` — one line break at the beginning of a text;
* `Tessera.Lined` — the line breaks of a text from left to right, and what follows the last one;
* `Tessera.ReadUpTo` — the part of a text before an offset.

Main results:

* `Tessera.Lined.after_eq` — **line and column count the breaks and the characters after them**;
* `Tessera.Location.after_le_after_append` — further reading does not lead back;
* `Tessera.lineColumn_mono` — **a later offset has no earlier location**.
-/

import Mathlib.Data.Prod.Lex
import Tessera.Proofs.Text.Lines

set_option autoImplicit false

namespace Tessera

variable {text p b rest line last : Text} {bs : List Text} {l : Location} {n : Nat}

/-! ### Line breaks from left to right -/

/-- A text that goes on with `rest` after a line break `b`.  A line feed and a carriage return after
one another are one break, in either order; each of them is a break of its own when the other one does
not follow. -/
inductive LineBreak : Text → Text → Prop
  | feedReturn (rest : Text) : LineBreak ['\n', '\r'] rest
  | returnFeed (rest : Text) : LineBreak ['\r', '\n'] rest
  | feed {rest : Text} (h : rest.head? ≠ some '\r') : LineBreak ['\n'] rest
  | carriageReturn {rest : Text} (h : rest.head? ≠ some '\n') : LineBreak ['\r'] rest

/-- A text with the line breaks `bs`, found from left to right, and with `last` after the last of
them. -/
inductive Lined : Text → List Text → Text → Prop
  | last {line : Text} (h : breaks line = []) : Lined line [] line
  | next {line b rest last : Text} {bs : List Text} (hline : breaks line = []) (hb : LineBreak b rest)
      (hrest : Lined rest bs last) : Lined (line ++ (b ++ rest)) (b :: bs) last

/-- A character that breaks no line, in front of a text. -/
theorem Lined.cons {c : Char} (hc : isBreak c = false) (h : Lined text bs last) :
    ∃ last, Lined (c :: text) bs last := by
  have hsingle : breaks [c] = [] := breaks_eq_nil_iff.2 (by simpa using hc)
  cases h with
  | last h => exact ⟨_, .last (by rw [breaks_cons, hsingle, h, List.append_nil])⟩
  | @next line _ _ _ _ hline hb hrest =>
      have hline : breaks (c :: line) = [] := by rw [breaks_cons, hsingle, hline, List.append_nil]
      exact ⟨_, .next hline hb hrest⟩

/-- A line break in front of a text. -/
theorem Lined.cons_break (hb : LineBreak b rest) (h : Lined rest bs last) :
    Lined (b ++ rest) (b :: bs) last :=
  .next breaks_nil hb h

/-- A text begins with a line break, or with a character that breaks no line. -/
theorem lineBreak_or_not (c : Char) (cs : Text) :
    (∃ b rest, c :: cs = b ++ rest ∧ LineBreak b rest) ∨ isBreak c = false := by
  by_cases hfeed : c = '\n'
  · subst hfeed
    by_cases hcs : cs.head? = some '\r'
    · obtain ⟨cs, rfl⟩ := List.head?_eq_some_iff.1 hcs
      exact .inl ⟨_, cs, rfl, .feedReturn cs⟩
    · exact .inl ⟨_, cs, rfl, .feed hcs⟩
  by_cases hreturn : c = '\r'
  · subst hreturn
    by_cases hcs : cs.head? = some '\n'
    · obtain ⟨cs, rfl⟩ := List.head?_eq_some_iff.1 hcs
      exact .inl ⟨_, cs, rfl, .returnFeed cs⟩
    · exact .inl ⟨_, cs, rfl, .carriageReturn hcs⟩
  exact .inr (by simp [isBreak, hfeed, hreturn])

theorem LineBreak.length_pos (h : LineBreak b rest) : 0 < b.length := by
  cases h <;> exact Nat.succ_pos _

/-- What holds of the empty text, and is kept by a character that breaks no line and by a line break in
front, holds of every text. -/
theorem lines_induction {P : Text → Prop} (nil : P [])
    (char : ∀ c cs, isBreak c = false → P cs → P (c :: cs))
    (lineBreak : ∀ b rest, LineBreak b rest → P rest → P (b ++ rest)) (text : Text) : P text := by
  induction hn : text.length using Nat.strong_induction_on generalizing text with
  | _ n ih =>
      cases text with
      | nil => exact nil
      | cons c cs =>
          rcases lineBreak_or_not c cs with ⟨b, rest, hsplit, hb⟩ | hc
          · rw [hsplit] at hn ⊢
            have hpos := hb.length_pos
            rw [List.length_append] at hn
            exact lineBreak b rest hb (ih rest.length (by omega) rest rfl)
          · exact char c cs hc (ih cs.length (by rw [← hn, List.length_cons]; omega) cs rfl)

/-- **Every text has line breaks from left to right.** -/
theorem exists_lined (text : Text) : ∃ bs last, Lined text bs last := by
  induction text using lines_induction with
  | nil => exact ⟨[], [], .last breaks_nil⟩
  | char c cs hc ih =>
      obtain ⟨bs, last, h⟩ := ih
      exact ⟨bs, h.cons hc⟩
  | lineBreak b rest hb ih =>
      obtain ⟨bs, last, h⟩ := ih
      exact ⟨b :: bs, last, h.cons_break hb⟩

/-! ### Counting -/

namespace Location

theorem after_cons {c : Char} (hc : isBreak c = false) (l : Location) (cs : Text) :
    l.after (c :: cs) = l.nextColumn.after cs := by
  obtain ⟨hfeed, hreturn⟩ : c ≠ '\n' ∧ c ≠ '\r' := by simpa [isBreak] using hc
  rw [after]
  · rw [if_neg (not_or.2 ⟨hfeed, hreturn⟩)]
  · exact fun _ h _ => hfeed h
  · exact fun _ h _ => hreturn h

theorem after_lineBreak (h : LineBreak b rest) (l : Location) :
    l.after (b ++ rest) = l.nextLine.after rest := by
  cases h with
  | feedReturn => rfl
  | returnFeed => rfl
  | feed h =>
      rw [List.singleton_append, after]
      · rw [if_pos (.inl rfl)]
      · exact fun _ _ hrest => h (by rw [hrest]; rfl)
      · exact fun _ hc _ => absurd hc (by decide)
  | carriageReturn h =>
      rw [List.singleton_append, after]
      · rw [if_pos (.inr rfl)]
      · exact fun _ hc _ => absurd hc (by decide)
      · exact fun _ _ hrest => h (by rw [hrest]; rfl)

/-- A line without breaks moves on by its length. -/
theorem after_line (h : breaks line = []) (l : Location) (rest : Text) :
    l.after (line ++ rest) = after ⟨l.line, l.column + line.length⟩ rest := by
  induction line generalizing l with
  | nil => rfl
  | cons c cs ih =>
      obtain ⟨hc, hcs⟩ := List.forall_mem_cons.1 (breaks_eq_nil_iff.1 h)
      rw [List.cons_append, after_cons hc, ih (breaks_eq_nil_iff.2 hcs), List.length_cons,
        Nat.add_comm cs.length 1, ← Nat.add_assoc]
      rfl

end Location

/-- **Line and column count the breaks and the characters after the last of them**, from the beginning
of a line on. -/
theorem Lined.after_eq (h : Lined text bs last) (hl : l.column = 1) :
    l.after text = ⟨l.line + bs.length, 1 + last.length⟩ := by
  induction h generalizing l with
  | @last line h =>
      have hafter := Location.after_line h l []
      rw [List.append_nil, hl] at hafter
      exact hafter
  | next hline hb hrest ih =>
      rw [Location.after_line hline, Location.after_lineBreak hb, ih rfl, List.length_cons,
        Nat.add_comm _ 1, ← Nat.add_assoc]
      rfl

/-! ### The order of locations -/

namespace Location

/-- Locations are ordered by line, and on one line by column. -/
instance : Preorder Location := Preorder.lift fun l => toLex (l.line, l.column)

theorem le_iff {l m : Location} : l ≤ m ↔ l.line < m.line ∨ l.line = m.line ∧ l.column ≤ m.column :=
  Prod.Lex.toLex_le_toLex

theorem le_nextLine (l : Location) : l ≤ l.nextLine := le_iff.2 (.inl (Nat.lt_succ_self _))

theorem le_nextColumn (l : Location) : l ≤ l.nextColumn := le_iff.2 (.inr ⟨rfl, Nat.le_succ _⟩)

/-- Reading does not lead back. -/
theorem le_after (l : Location) (text : Text) : l ≤ l.after text := by
  induction text using lines_induction generalizing l with
  | nil => exact le_rfl
  | char c cs hc ih =>
      rw [after_cons hc]
      exact l.le_nextColumn.trans (ih _)
  | lineBreak b rest hb ih =>
      rw [after_lineBreak hb]
      exact l.le_nextLine.trans (ih _)

/-- One of the two characters of a line break at the end of a text may be joined by the other one when
reading goes on; the line break has been counted before. -/
theorem nextLine_le_after_append (h : LineBreak b []) (l : Location) (q : Text) :
    l.nextLine ≤ l.after (b ++ q) := by
  obtain ⟨c, cs, hq⟩ : ∃ c cs, b ++ q = c :: cs := by
    cases h <;> exact ⟨_, _, rfl⟩
  rcases lineBreak_or_not c cs with ⟨b', rest, hsplit, hb'⟩ | hc
  · rw [hq, hsplit, after_lineBreak hb']
    exact le_after _ _
  · have hbreak : isBreak c = true := by
      cases h <;> · cases hq; rfl
    rw [hc] at hbreak
    cases hbreak

/-- **Further reading does not lead back.** -/
theorem after_le_after_append (l : Location) (p q : Text) : l.after p ≤ l.after (p ++ q) := by
  induction p using lines_induction generalizing l with
  | nil => exact le_after l q
  | char c cs hc ih =>
      rw [List.cons_append, after_cons hc, after_cons hc]
      exact ih _
  | lineBreak b rest hb ih =>
      rw [after_lineBreak hb]
      cases rest with
      | nil =>
          rw [List.append_nil]
          exact nextLine_le_after_append hb l q
      | cons c cs =>
          -- what follows the break does not depend on `q`
          have hb' : LineBreak b (c :: cs ++ q) := by
            cases hb with
            | feedReturn => exact .feedReturn _
            | returnFeed => exact .returnFeed _
            | feed h => exact .feed h
            | carriageReturn h => exact .carriageReturn h
          rw [List.append_assoc, after_lineBreak hb']
          exact ih _

end Location

/-! ### Offsets -/

/-- The longest part at the beginning of a text that fits into `n` bytes.  It ends at the offset `n` or,
when this lies past the end of the text or inside of a character, at the nearest boundary before it. -/
structure ReadUpTo (text : Text) (n : Nat) (p : Text) : Prop where
  begins : p <+: text
  fits : byteLength p ≤ n
  longest : ∀ q, q <+: text → byteLength q ≤ n → q <+: p

/-- What is read up to an offset is what is cut off there. -/
theorem readUpTo_takeBytes (text : Text) (n : Nat) : ReadUpTo text n (takeBytes n text) := by
  induction text generalizing n with
  | nil => exact ⟨List.prefix_rfl, Nat.zero_le n, fun q hq _ => hq⟩
  | cons c cs ih =>
      by_cases hc : c.utf8Size ≤ n
      · obtain ⟨hbegins, hfits, hlongest⟩ := ih (n - c.utf8Size)
        rw [takeBytes, if_pos hc]
        refine ⟨(List.prefix_cons_inj c).2 hbegins, by rw [byteLength_cons]; omega, fun q hq hn => ?_⟩
        rcases List.prefix_cons_iff.1 hq with rfl | ⟨q', rfl, hq'⟩
        · exact List.prefix_append [] _
        · rw [byteLength_cons] at hn
          exact (List.prefix_cons_inj c).2 (hlongest q' hq' (by omega))
      · rw [takeBytes, if_neg hc]
        refine ⟨List.prefix_append [] _, Nat.zero_le n, fun q hq hn => ?_⟩
        rcases List.prefix_cons_iff.1 hq with rfl | ⟨q', rfl, -⟩
        · exact List.prefix_rfl
        · rw [byteLength_cons] at hn
          omega

/-- Only one part is read up to an offset. -/
theorem ReadUpTo.eq {q : Text} (hp : ReadUpTo text n p) (hq : ReadUpTo text n q) : p = q :=
  (hq.longest p hp.begins hp.fits).eq_of_length_le
    (hp.longest q hq.begins hq.fits).length_le

/-- **The location of an offset counts the line breaks before it and the characters after the last of
them.** -/
theorem ReadUpTo.lineColumn_eq (hp : ReadUpTo text n p) (h : Lined p bs last) :
    lineColumn text n = ⟨1 + bs.length, 1 + last.length⟩ := by
  rw [lineColumn, (readUpTo_takeBytes text n).eq hp, h.after_eq rfl]
  rfl

/-- **A later offset has no earlier location.** -/
theorem lineColumn_mono (text : Text) {m n : Nat} (h : m ≤ n) :
    lineColumn text m ≤ lineColumn text n := by
  have hm := readUpTo_takeBytes text m
  have hn := readUpTo_takeBytes text n
  obtain ⟨q, hq⟩ := hn.longest _ hm.begins (hm.fits.trans h)
  rw [lineColumn, lineColumn, ← hq]
  exact Location.origin.after_le_after_append _ q

/-- A carriage return, cut off from its line feed, and the two together: the same location. -/
example : lineColumn "a\r\nb".toList 2 = ⟨2, 1⟩ ∧ lineColumn "a\r\nb".toList 3 = ⟨2, 1⟩ := by
  decide

end Tessera
