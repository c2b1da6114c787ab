/-
**Reading a pattern inside of a group.**

A reader stops where what it reads ends, so it reads the same when a closing parenthesis and more of
a pattern follow.  Blanks and comments are the only exception: a comment that is still open at the end
goes on in what follows.  Therefore what a reader leaves is compared up to blanks, and the text that
was left before blanks were skipped is kept.

Main definitions:

* `Tessera.Pattern.OpenComment` — a comment is open at the end of a text;
* `Tessera.Pattern.ReadsWithin` — a reader reads the same when a closing parenthesis follows.

Main results:

* `Tessera.Pattern.readEscape_within`, `Tessera.Pattern.readCount_within`,
  `Tessera.Pattern.readClass_within`, `Tessera.Pattern.readOpening_within` — **the readers of escapes,
  counts, classes and groups read the same**.
-/

import Tessera.Pattern.Parser

set_option autoImplicit false

namespace Tessera.Pattern

variable {verbose : Bool}

/-! ### Blanks -/

/-- A character is skipped, or it is neither blank nor the beginning of a comment and stays. -/
theorem skipVerbose_cons (comment : Bool) (c : Char) :
    (∃ comment', ∀ cs, skipVerbose comment (c :: cs) = skipVerbose comment' cs) ∨
      isWhiteSpace c = false ∧ c ≠ '#' ∧ ∀ cs, skipVerbose comment (c :: cs) = c :: cs := by
  cases comment with
  | true => exact .inl ⟨c != '\n', fun cs => by simp [skipVerbose]⟩
  | false =>
      by_cases hblank : isWhiteSpace c = true
      · exact .inl ⟨false, fun cs => by simp [skipVerbose, hblank]⟩
      by_cases hhash : c = '#'
      · subst hhash
        exact .inl ⟨true, fun cs => by simp [skipVerbose, hblank]⟩
      · exact .inr ⟨by simpa using hblank, hhash, fun cs => by simp [skipVerbose, hblank, hhash]⟩

theorem skipVerbose_append {comment : Bool} {t cs : List Char} {c : Char}
    (h : skipVerbose comment t = c :: cs) (s : List Char) :
    skipVerbose comment (t ++ s) = c :: (cs ++ s) := by
  induction t generalizing comment with
  | nil => simp [skipVerbose] at h
  | cons d ds ih =>
      rcases skipVerbose_cons comment d with ⟨comment', hskip⟩ | ⟨-, -, hstay⟩
      · rw [hskip] at h
        rw [List.cons_append, hskip]
        exact ih h
      · rw [hstay] at h
        obtain ⟨rfl, rfl⟩ := List.cons.inj h
        exact hstay _

/-- What is left does not begin with blanks or a comment. -/
theorem skipVerbose_head {comment : Bool} {t cs : List Char} {c : Char}
    (h : skipVerbose comment t = c :: cs) : isWhiteSpace c = false ∧ c ≠ '#' := by
  induction t generalizing comment with
  | nil => simp [skipVerbose] at h
  | cons d ds ih =>
      rcases skipVerbose_cons comment d with ⟨comment', hskip⟩ | ⟨hblank, hhash, hstay⟩
      · rw [hskip] at h
        exact ih h
      · rw [hstay] at h
        obtain ⟨rfl, rfl⟩ := List.cons.inj h
        exact ⟨hblank, hhash⟩

theorem length_skipVerbose_le (comment : Bool) (t : List Char) :
    (skipVerbose comment t).length ≤ t.length := by
  induction t generalizing comment with
  | nil => simp [skipVerbose]
  | cons d ds ih =>
      rcases skipVerbose_cons comment d with ⟨comment', hskip⟩ | ⟨-, -, hstay⟩
      · rw [hskip]
        exact Nat.le_succ_of_le (ih _)
      · exact Nat.le_of_eq (congrArg List.length (hstay ds))

theorem skipBlanks_append {t cs : List Char} {c : Char} (h : skipBlanks verbose t = c :: cs)
    (s : List Char) : skipBlanks verbose (t ++ s) = c :: (cs ++ s) := by
  cases verbose with
  | true => exact skipVerbose_append h s
  | false =>
      have h : t = c :: cs := h
      rw [h]
      rfl

@[simp] theorem skipBlanks_nil : skipBlanks verbose [] = [] := by
  cases verbose <;> rfl

@[simp] theorem skipBlanks_skipBlanks (t : List Char) :
    skipBlanks verbose (skipBlanks verbose t) = skipBlanks verbose t := by
  cases verbose with
  | false => rfl
  | true =>
      cases h : skipVerbose false t with
      | nil => simp [skipBlanks, h, skipVerbose]
      | cons c cs =>
          obtain ⟨hblank, hcomment⟩ := skipVerbose_head h
          simp [skipBlanks, h, skipVerbose, hblank, hcomment]

theorem length_skipBlanks_le (t : List Char) : (skipBlanks verbose t).length ≤ t.length := by
  cases verbose with
  | true => exact length_skipVerbose_le false t
  | false => exact Nat.le_refl _

/-- A closing parenthesis is not blank. -/
@[simp] theorem skipBlanks_paren (s : List Char) : skipBlanks verbose (')' :: s) = ')' :: s := by
  cases verbose with
  | true => simp [skipBlanks, skipVerbose, show isWhiteSpace ')' = false by decide]
  | false => rfl

/-- A comment is open at the end of the text, so that it goes on in what follows. -/
def OpenComment (verbose : Bool) (raw : List Char) : Prop :=
  ∀ s, skipBlanks verbose (raw ++ ')' :: s) = skipVerbose true s

/-- Nothing but blanks stands before an open comment. -/
theorem OpenComment.blank {raw : List Char} (h : OpenComment verbose raw) :
    skipBlanks verbose raw = [] := by
  cases hskip : skipBlanks verbose raw with
  | nil => rfl
  | cons c cs =>
      have hnil := h []
      rw [skipBlanks_append hskip] at hnil
      simp [skipVerbose] at hnil

/-- At the end of blanks either a comment is open or a closing parenthesis is seen. -/
theorem paren_or_open {raw : List Char} (h : skipBlanks verbose raw = []) :
    (∀ s, skipBlanks verbose (raw ++ ')' :: s) = ')' :: s) ∨ OpenComment verbose raw := by
  cases verbose with
  | false =>
      have : raw = [] := h
      subst this
      exact .inl fun _ => rfl
  | true =>
      suffices ∀ comment, skipVerbose comment raw = [] →
          (∀ s, skipVerbose comment (raw ++ ')' :: s) = ')' :: s) ∨
            ∀ s, skipVerbose comment (raw ++ ')' :: s) = skipVerbose true s from
        this false h
      clear h
      induction raw with
      | nil =>
          intro comment _
          cases comment with
          | false => exact .inl fun s => show skipBlanks true (')' :: s) = _ from skipBlanks_paren s
          | true => exact .inr fun s => by simp [skipVerbose]
      | cons d ds ih =>
          intro comment h
          rcases skipVerbose_cons comment d with ⟨comment', hskip⟩ | ⟨-, -, hstay⟩
          · rw [hskip] at h
            simpa only [List.cons_append, hskip] using ih _ h
          · rw [hstay] at h
            simp at h

/-! ### Readers -/

section Readers

variable {α : Type}

/-- The reader reads the same when a closing parenthesis and `s` follow.  What it leaves is, up to
blanks, what it left before and what follows; a comment that is open at the end must swallow `s`. -/
def ReadsWithin (verbose : Bool) (f : List Char → Option (α × List Char)) (t : List Char) : Prop :=
  ∀ x rest, f t = some (x, rest) → ∃ raw, skipBlanks verbose rest = skipBlanks verbose raw ∧
    ∀ s, (OpenComment verbose raw → skipVerbose true s = []) →
      ∃ rest', f (t ++ ')' :: s) = some (x, rest') ∧
        skipBlanks verbose rest' = skipBlanks verbose (raw ++ ')' :: s)

/-- A reader that leaves exactly what follows reads within groups. -/
theorem ReadsWithin.of_append {f : List Char → Option (α × List Char)} {t : List Char}
    (h : ∀ x rest, f t = some (x, rest) → ∀ s, f (t ++ ')' :: s) = some (x, rest ++ ')' :: s)) :
    ReadsWithin verbose f t :=
  fun x rest hread => ⟨rest, rfl, fun s _ => ⟨_, h x rest hread s, rfl⟩⟩

/-- What is read up to a character is read up to it when more follows. -/
theorem readWhile_append {p : Char → Bool} {m n : Nat} {t read rest : List Char} {c : Char}
    (s : List Char) (hn : t.length ≤ n) (hm : (t ++ s).length ≤ m)
    (h : readWhile verbose p n t = (read, c :: rest)) :
    readWhile verbose p m (t ++ s) = (read, c :: (rest ++ s)) := by
  induction n generalizing t m read with
  | zero =>
      obtain rfl : t = [] := List.length_eq_zero_iff.1 (Nat.le_zero.1 hn)
      simp [readWhile] at h
  | succ n ih =>
      cases t with
      | nil => simp [readWhile] at h
      | cons d ds =>
          obtain ⟨m, rfl⟩ : ∃ k, m = k + 1 := ⟨m - 1, by simp at hm; omega⟩
          rw [readWhile] at h
          rw [List.cons_append, readWhile]
          split at h
          · next hd =>
            rw [if_pos hd]
            obtain ⟨rfl, hrest⟩ := Prod.mk.inj h
            cases hskip : skipBlanks verbose ds with
            | nil =>
                rw [hskip] at hrest
                cases n <;> simp [readWhile] at hrest
            | cons e es =>
                have hle : (skipBlanks verbose ds).length ≤ ds.length := length_skipBlanks_le ds
                rw [hskip] at hrest hle
                simp only [List.length_append, List.length_cons] at hn hm hle
                have hread : readWhile verbose p m (e :: es ++ s) =
                    ((readWhile verbose p n (e :: es)).1, c :: (rest ++ s)) :=
                  ih (by simp only [List.length_cons]; omega)
                    (by simp only [List.length_append, List.length_cons]; omega)
                    (Prod.ext rfl hrest)
                rw [List.cons_append] at hread
                rw [skipBlanks_append hskip, hread]
          · next hd =>
            rw [if_neg hd]
            obtain ⟨rfl, hrest⟩ := Prod.mk.inj h
            obtain ⟨rfl, rfl⟩ := List.cons.inj hrest
            rfl

/-- The same for what stands between braces, after blanks. -/
theorem readWhile_skipBlanks_append {p : Char → Bool} {t read rest : List Char} {c : Char}
    (s : List Char)
    (h : readWhile verbose p (skipBlanks verbose t).length (skipBlanks verbose t) =
      (read, c :: rest)) :
    readWhile verbose p (skipBlanks verbose (t ++ s)).length (skipBlanks verbose (t ++ s)) =
      (read, c :: (rest ++ s)) := by
  cases hskip : skipBlanks verbose t with
  | nil => simp [hskip, readWhile] at h
  | cons d ds =>
      rw [hskip] at h
      rw [skipBlanks_append hskip, ← List.cons_append]
      exact readWhile_append s (Nat.le_refl _) (Nat.le_refl _) h

end Readers

/-! ### Escapes -/

theorem readHexDigits_within {digits n k : Nat} {t rest : List Char}
    (h : readHexDigits verbose digits n (skipBlanks verbose t) = some (k, rest)) :
    ∃ raw, skipBlanks verbose rest = skipBlanks verbose raw ∧
      ∀ s, ∃ rest', readHexDigits verbose digits n (skipBlanks verbose (t ++ ')' :: s)) =
        some (k, rest') ∧ skipBlanks verbose rest' = skipBlanks verbose (raw ++ ')' :: s) := by
  induction digits generalizing n t with
  | zero =>
      simp only [readHexDigits, Option.some.injEq, Prod.mk.injEq] at h ⊢
      obtain ⟨rfl, rfl⟩ := h
      exact ⟨t, skipBlanks_skipBlanks t, fun s => ⟨_, ⟨rfl, rfl⟩, skipBlanks_skipBlanks _⟩⟩
  | succ digits ih =>
      cases hskip : skipBlanks verbose t with
      | nil => simp [hskip, readHexDigits] at h
      | cons c cs =>
          rw [hskip, readHexDigits] at h
          simp only [skipBlanks_append hskip, readHexDigits]
          cases hvalue : CodePointSet.hexValue? c with
          | none => simp [hvalue] at h
          | some d =>
              rw [hvalue] at h
              exact ih h

theorem readHex_within (kind : Char) (t : List Char) :
    ReadsWithin verbose (readHex verbose kind) t := by
  intro x rest h
  cases hskip : skipBlanks verbose t with
  | nil => simp [readHex, hskip] at h
  | cons c cs =>
      by_cases hbrace : c = '\x7b'
      · subst hbrace
        simp only [readHex, hskip] at h
        split at h
        · next digits inner hread =>
          rw [Option.ite_none_left_eq_some] at h
          obtain ⟨hdigits, h⟩ := h
          obtain ⟨d, hd, heq⟩ := Option.map_eq_some_iff.1 h
          obtain ⟨rfl, rfl⟩ := Prod.mk.inj heq
          refine ⟨inner, skipBlanks_skipBlanks inner, fun s _ => ⟨_, ?_, skipBlanks_skipBlanks _⟩⟩
          simp only [readHex, skipBlanks_append hskip, readWhile_skipBlanks_append (')' :: s) hread]
          rw [if_neg hdigits, hd]
          rfl
        · simp at h
      · simp only [readHex, hskip] at h
        split at h
        · simp at h
        · next heq => exact absurd (List.cons.inj heq).1 hbrace
        split at h
        · simp at h
        next n inner hread =>
        rw [← hskip] at hread
        obtain ⟨raw, hraw, hwithin⟩ := readHexDigits_within hread
        obtain ⟨d, hd, heq⟩ := Option.map_eq_some_iff.1 h
        obtain ⟨rfl, rfl⟩ := Prod.mk.inj heq
        refine ⟨raw, hraw, fun s _ => ?_⟩
        obtain ⟨inner', hread', hraw'⟩ := hwithin s
        refine ⟨inner', ?_, hraw'⟩
        rw [skipBlanks_append hskip] at hread'
        simp only [readHex, skipBlanks_append hskip]
        split
        · next heq => simp at heq
        · next heq => exact absurd (List.cons.inj heq).1 hbrace
        simp only [hread', hd, Option.map_some]

theorem readProperty_within (negated : Bool) (t : List Char) :
    ReadsWithin verbose (readProperty verbose negated) t := by
  intro x rest h
  cases hskip : skipBlanks verbose t with
  | nil => simp [readProperty, hskip] at h
  | cons c cs =>
      simp only [readProperty, hskip] at h
      split at h
      · simp at h
      · next inner heq =>
        obtain ⟨rfl, rfl⟩ := List.cons.inj heq
        split at h
        · next name inner hread =>
          obtain ⟨rfl, rfl⟩ := Prod.mk.inj (Option.some.inj h)
          refine ⟨inner, rfl, fun s _ => ⟨_, ?_, rfl⟩⟩
          simp only [readProperty, skipBlanks_append hskip,
            readWhile_skipBlanks_append (')' :: s) hread]
        · simp at h
      · next d ds hne heq =>
        obtain ⟨rfl, rfl⟩ := List.cons.inj heq
        rw [Option.ite_none_left_eq_some] at h
        obtain ⟨hbackslash, h⟩ := h
        obtain ⟨rfl, rfl⟩ := Prod.mk.inj (Option.some.inj h)
        refine ⟨cs, skipBlanks_skipBlanks cs, fun s _ => ⟨_, ?_, skipBlanks_skipBlanks _⟩⟩
        simp [readProperty, skipBlanks_append hskip, hbackslash]

theorem readBoundaryKind_append {t rest : List Char} {a : Anchor}
    (h : readBoundaryKind verbose t = some (a, rest)) (s : List Char) :
    readBoundaryKind verbose (t ++ ')' :: s) = some (a, rest ++ ')' :: s) := by
  cases t with
  | nil =>
      obtain ⟨rfl, rfl⟩ := Prod.mk.inj (Option.some.inj h)
      rfl
  | cons c cs =>
      by_cases hbrace : c = '\x7b'
      · subst hbrace
        simp only [readBoundaryKind] at h
        cases hskip : skipBlanks verbose cs with
        | nil => simp [hskip] at h
        | cons d ds =>
            simp only [hskip] at h
            simp only [List.cons_append, readBoundaryKind, skipBlanks_append hskip]
            split at h
            · next hname =>
              rw [if_pos hname]
              obtain ⟨rfl, rfl⟩ := Prod.mk.inj (Option.some.inj h)
              rfl
            · next hname =>
              rw [if_neg hname]
              split at h
              · next name inner hread =>
                have hread' := readWhile_append (t := d :: ds) (m := (ds ++ ')' :: s).length + 1)
                  (')' :: s) (Nat.le_refl _) (Nat.le_refl _) hread
                rw [List.cons_append] at hread'
                simp only [hread']
                split at h <;> first | cases h; rfl | cases h
              · simp at h
      · have hread : ∀ u, readBoundaryKind verbose (c :: u) = some (.wordBoundary, c :: u) := by
          intro u
          unfold readBoundaryKind
          split
          · next heq => exact absurd (List.cons.inj heq).1 hbrace
          · rfl
        rw [hread] at h
        obtain ⟨rfl, rfl⟩ := Prod.mk.inj (Option.some.inj h)
        rw [List.cons_append, hread]

theorem readEscape_within (t : List Char) : ReadsWithin verbose (readEscape verbose) t := by
  cases t with
  | nil =>
      intro x rest h
      simp [readEscape] at h
  | cons c cs =>
      by_cases hdigit : c.isDigit = true
      · intro x rest h
        simp [readEscape, hdigit] at h
      by_cases hhex : c = 'x' ∨ c = 'u' ∨ c = 'U'
      · have hread : ∀ u, readEscape verbose (c :: u) = readHex verbose c u := fun u => by
          simp only [readEscape, if_neg hdigit, if_pos hhex]
        intro x rest h
        rw [hread] at h
        simpa only [List.cons_append, hread] using readHex_within c cs x rest h
      by_cases hproperty : c = 'p' ∨ c = 'P'
      · have hread : ∀ u, readEscape verbose (c :: u) = readProperty verbose (c == 'P') u :=
          fun u => by simp only [readEscape, if_neg hdigit, if_neg hhex, if_pos hproperty]
        intro x rest h
        rw [hread] at h
        simpa only [List.cons_append, hread] using readProperty_within (c == 'P') cs x rest h
      -- everything else is settled by the character, but for the kinds of word boundaries
      refine .of_append fun x rest h s => ?_
      simp only [List.cons_append, readEscape, if_neg hdigit, if_neg hhex, if_neg hproperty] at h ⊢
      by_cases hescapable : isEscapable c = true
      · rw [if_pos hescapable] at h ⊢
        cases h
        rfl
      rw [if_neg hescapable] at h ⊢
      split at h
      case h_15 =>
        obtain ⟨⟨a, inner⟩, hread, heq⟩ := Option.map_eq_some_iff.1 h
        cases heq
        rw [readBoundaryKind_append hread]
        rfl
      all_goals cases h
      all_goals rfl

/-! ### Counts -/

theorem readDecimal_append {t rest : List Char} {c : Char} {n : Option Nat} (s : List Char)
    (h : readDecimal verbose t = (n, c :: rest)) :
    readDecimal verbose (t ++ s) = (n, c :: (rest ++ s)) := by
  simp only [readDecimal, Prod.mk.injEq] at h
  obtain ⟨hn, hrest⟩ := h
  cases hbody : t.dropWhile isWhiteSpace with
  | nil => simp [hbody, readWhile] at hrest
  | cons d ds =>
      rw [hbody] at hn hrest
      cases hdigits : readWhile verbose Char.isDigit (d :: ds).length (d :: ds) with
      | mk digits inner =>
          rw [hdigits] at hn hrest
          cases inner with
          | nil => simp [readWhile] at hrest
          | cons e es =>
              have hbody' : (t ++ s).dropWhile isWhiteSpace = d :: ds ++ s := by
                simp [List.dropWhile_append, hbody]
              have hdigits' : readWhile verbose Char.isDigit (d :: ds ++ s).length (d :: ds ++ s) =
                  (digits, e :: (es ++ s)) :=
                readWhile_append s (Nat.le_refl _) (Nat.le_refl _) hdigits
              have hrest' : readWhile verbose isWhiteSpace (e :: es ++ s).length (e :: es ++ s) =
                  ((readWhile verbose isWhiteSpace (e :: es).length (e :: es)).1,
                    c :: (rest ++ s)) :=
                readWhile_append s (Nat.le_refl _) (Nat.le_refl _) (Prod.ext rfl hrest)
              rw [List.cons_append] at hrest'
              simp only [readDecimal, hbody', hdigits', hrest', hn]

/-- The question mark after a count is seen, or a comment hides it. -/
theorem skipLazy_within (verbose : Bool) (t : List Char) :
    ∃ raw, skipBlanks verbose (skipLazy (skipBlanks verbose t)) = skipBlanks verbose raw ∧
      ∀ s, (OpenComment verbose raw → skipVerbose true s = []) →
        skipBlanks verbose (skipLazy (skipBlanks verbose (t ++ ')' :: s))) =
          skipBlanks verbose (raw ++ ')' :: s) := by
  cases hskip : skipBlanks verbose t with
  | nil =>
      refine ⟨t, by simp [skipLazy, hskip], fun s hopen => ?_⟩
      rcases paren_or_open hskip with hparen | hcomment
      · simp [hparen, skipLazy]
      · simp [hcomment s, hopen hcomment, skipLazy]
  | cons c cs =>
      by_cases hlazy : c = '?'
      · subst hlazy
        exact ⟨cs, rfl, fun s _ => by rw [skipBlanks_append hskip]; rfl⟩
      · have hstay : ∀ u, skipLazy (c :: u) = c :: u := by
          intro u
          unfold skipLazy
          split
          · next heq => exact absurd (List.cons.inj heq).1 hlazy
          · rfl
        refine ⟨t, by rw [hstay, ← hskip, skipBlanks_skipBlanks], fun s _ => ?_⟩
        rw [skipBlanks_append hskip, hstay, ← skipBlanks_append hskip, skipBlanks_skipBlanks]

theorem closeCount_within (bounds : Nat × Option Nat) (t : List Char) :
    ReadsWithin verbose (closeCount verbose bounds) t := by
  intro x rest h
  unfold closeCount at h
  split at h
  · next inner =>
    obtain ⟨checked, hcheck, heq⟩ := Option.map_eq_some_iff.1 h
    obtain ⟨rfl, rfl⟩ := Prod.mk.inj heq
    obtain ⟨raw, hraw, hwithin⟩ := skipLazy_within verbose inner
    refine ⟨raw, hraw, fun s hopen => ⟨_, ?_, hwithin s hopen⟩⟩
    simp only [List.cons_append, closeCount, hcheck, Option.map_some]
  · simp at h

theorem readUpper_within (lower : Nat) {c : Char} {t : List Char} :
    ReadsWithin verbose (readUpper verbose lower) (c :: t) := by
  by_cases hcomma : c = ','
  · subst hcomma
    intro x rest h
    simp only [readUpper] at h
    cases hskip : skipBlanks verbose t with
    | nil => simp [hskip, readDecimal, readWhile] at h
    | cons d ds =>
        by_cases hbrace : d = '\x7d'
        · subst hbrace
          simp only [hskip] at h
          simpa only [List.cons_append, readUpper, skipBlanks_append hskip] using
            closeCount_within (lower, none) ('\x7d' :: ds) x rest h
        simp only [hskip] at h
        rcases hupper : readDecimal verbose (d :: ds) with ⟨_ | upper, _ | ⟨e, es⟩⟩
        · simp [hbrace, hupper] at h
        · simp [hbrace, hupper] at h
        · simp [hbrace, hupper, closeCount] at h
        · simp [hbrace, hupper] at h
          have hread : ∀ s, readUpper verbose lower (',' :: (t ++ s)) =
              closeCount verbose (lower, some upper) (e :: (es ++ s)) := fun s => by
            have hupper' := readDecimal_append s hupper
            rw [List.cons_append] at hupper'
            simp [readUpper, skipBlanks_append hskip, hbrace, hupper']
          simpa only [List.cons_append, hread] using
            closeCount_within (lower, some upper) (e :: es) x rest h
  · have hread : ∀ u, readUpper verbose lower (c :: u) =
        closeCount verbose (lower, some lower) (c :: u) := fun u => by
      simp [readUpper, hcomma]
    intro x rest h
    rw [hread] at h
    simpa only [List.cons_append, hread] using closeCount_within (lower, some lower) (c :: t) x rest h

theorem readCount_within (t : List Char) : ReadsWithin verbose (readCount verbose) t := by
  intro x rest h
  unfold readCount at h
  cases hskip : skipBlanks verbose t with
  | nil => simp [hskip] at h
  | cons c cs =>
      simp only [hskip] at h
      rcases hlower : readDecimal verbose (c :: cs) with ⟨lower, after⟩
      simp only [hlower] at h
      cases lower with
      | none => simp at h
      | some lower =>
          cases after with
          | nil => simp [readUpper, closeCount] at h
          | cons d ds =>
              have hread : ∀ s, readCount verbose (t ++ s) =
                  readUpper verbose lower (d :: (ds ++ s)) := fun s => by
                have hlower' := readDecimal_append s hlower
                rw [List.cons_append] at hlower'
                simp only [readCount, skipBlanks_append hskip, hlower']
              simpa only [hread, List.cons_append] using readUpper_within lower x rest h

/-! ### Openings -/

theorem readFlags_append {items flags : List FlagItem} {t rest : List Char}
    (h : readFlags items t = some (flags, rest)) (s : List Char) :
    readFlags items (t ++ s) = some (flags, rest ++ s) := by
  induction t generalizing items with
  | nil => simp [readFlags] at h
  | cons c cs ih =>
      rw [readFlags] at h
      rw [List.cons_append, readFlags]
      split at h
      · next hc =>
        rw [if_pos hc]
        rw [Option.ite_none_left_eq_some] at h
        obtain ⟨hhead, h⟩ := h
        cases h
        rw [if_neg hhead]
        rfl
      · next hc =>
        rw [if_neg hc]
        dsimp only at h ⊢
        split at h
        · simp at h
        · next item _ =>
          rw [Option.ite_none_left_eq_some] at h
          obtain ⟨hfresh, h⟩ := h
          rw [if_neg hfresh]
          exact ih h

/-- What ends within a text ends there when more follows. -/
theorem span_append {p : Char → Bool} {t : List Char} (h : t.dropWhile p ≠ []) (s : List Char) :
    (t ++ s).takeWhile p = t.takeWhile p ∧ (t ++ s).dropWhile p = t.dropWhile p ++ s := by
  constructor
  · rw [List.takeWhile_append, if_neg]
    intro hlength
    have htotal := congrArg List.length (List.takeWhile_append_dropWhile (p := p) (l := t))
    rw [List.length_append, hlength] at htotal
    exact h (List.length_eq_zero_iff.1 (by omega))
  · rw [List.dropWhile_append, if_neg (by simpa using h)]

theorem readGroupName_append {t rest : List Char} {name : String}
    (h : readGroupName t = some (name, rest)) (s : List Char) :
    readGroupName (t ++ s) = some (name, rest ++ s) := by
  unfold readGroupName at h
  split at h
  · next c cs inner htake hdrop =>
    rw [Option.ite_none_right_eq_some] at h
    obtain ⟨hname, h⟩ := h
    cases h
    obtain ⟨htake', hdrop'⟩ := span_append (by simp [hdrop] : t.dropWhile (· != '>') ≠ []) s
    rw [htake] at htake'
    rw [hdrop, List.cons_append] at hdrop'
    simp only [readGroupName, htake', hdrop']
    rw [if_pos hname]
  · simp at h

theorem namedOpening_append {t rest : List Char} {o : Opening}
    (h : namedOpening t = some (o, rest)) (s : List Char) :
    namedOpening (t ++ s) = some (o, rest ++ s) := by
  obtain ⟨⟨name, inner⟩, hread, heq⟩ := Option.map_eq_some_iff.1 h
  cases heq
  rw [namedOpening, readGroupName_append hread]
  rfl

theorem flaggedOpening_append {t rest : List Char} {o : Opening}
    (h : flaggedOpening t = some (o, rest)) (s : List Char) :
    flaggedOpening (t ++ s) = some (o, rest ++ s) := by
  unfold flaggedOpening at h
  split at h
  · next hread =>
    cases h
    simp [flaggedOpening, readFlags_append hread]
  · next hread =>
    cases h
    simp [flaggedOpening, readFlags_append hread]
  · simp at h

theorem readOpening_cons_append {c : Char} {t rest : List Char} {o : Opening}
    (h : readOpening false (c :: t) = some (o, rest)) (s : List Char) :
    readOpening false (c :: (t ++ s)) = some (o, rest ++ s) := by
  by_cases hquestion : c = '?'
  · subst hquestion
    have hflagged {d : Char} (hd : d ≠ '=' ∧ d ≠ '!' ∧ d ≠ '<' ∧ d ≠ 'P') (u : List Char) :
        readOpening false ('?' :: d :: u) = flaggedOpening (d :: u) := by
      simp [readOpening, skipBlanks, hd]
    have hnamed {d : Char} (hd : d ≠ '=' ∧ d ≠ '!') (u : List Char) :
        readOpening false ('?' :: '<' :: d :: u) = namedOpening (d :: u) := by
      simp [readOpening, skipBlanks, hd]
    rcases t with _ | ⟨d, ds⟩
    · simp [readOpening, skipBlanks, flaggedOpening, readFlags] at h
    by_cases hlook : d = '=' ∨ d = '!'
    · rcases hlook with rfl | rfl <;> simp [readOpening, skipBlanks] at h
    by_cases hangle : d = '<'
    · subst hangle
      rcases ds with _ | ⟨e, es⟩
      · simp [readOpening, skipBlanks, namedOpening, readGroupName] at h
      by_cases hbehind : e = '=' ∨ e = '!'
      · rcases hbehind with rfl | rfl <;> simp [readOpening, skipBlanks] at h
      rw [hnamed (not_or.1 hbehind)] at h
      rw [List.cons_append, List.cons_append, hnamed (not_or.1 hbehind)]
      exact namedOpening_append h s
    by_cases hp : d = 'P'
    · subst hp
      rcases ds with _ | ⟨e, es⟩
      · simp [readOpening, skipBlanks, flaggedOpening, readFlags, flag?] at h
      by_cases hopen : e = '<'
      · subst hopen
        exact namedOpening_append h s
      · simp [readOpening, skipBlanks, flaggedOpening, readFlags, flag?, hopen] at h
    · have hd : d ≠ '=' ∧ d ≠ '!' ∧ d ≠ '<' ∧ d ≠ 'P' :=
        ⟨(not_or.1 hlook).1, (not_or.1 hlook).2, hangle, hp⟩
      rw [hflagged hd] at h
      rw [List.cons_append, hflagged hd]
      exact flaggedOpening_append h s
  · have hread : ∀ u, readOpening false (c :: u) = some (.group none [], c :: u) := fun u => by
      simp [readOpening, skipBlanks, hquestion]
    rw [hread] at h ⊢
    cases h
    rfl

/-- What begins a group is read the same when more follows, unless there is nothing but blanks. -/
theorem readOpening_append {t rest : List Char} {o : Opening} (hne : skipBlanks verbose t ≠ [])
    (h : readOpening verbose t = some (o, rest)) (s : List Char) :
    readOpening verbose (t ++ s) = some (o, rest ++ s) := by
  have hread : ∀ u, readOpening verbose u = readOpening false (skipBlanks verbose u) :=
    fun _ => rfl
  obtain ⟨c, cs, hskip⟩ := List.exists_cons_of_ne_nil hne
  rw [hread, hskip] at h
  rw [hread, skipBlanks_append hskip]
  exact readOpening_cons_append h s

end Tessera.Pattern
