/-
**Patterns that are written and read again.**

Patterns are put together from pieces: each piece is read as an item of its own, and the flags that
are set in a group end with it.  So what a pattern denotes follows from what its pieces denote: rows
of pieces denote their expressions one after the other, and groups and repeated groups denote what
stands in them.

A written pattern is read until it ends: at the end of the text, or at the parenthesis that closes the
group in which it stands.

Main definitions:

* `Tessera.Pattern.Ast.Denotes`, `Tessera.Pattern.Ast.Piece` — a tree that denotes an expression;
* `Tessera.Pattern.Written`, `Tessera.Pattern.WrittenPiece` — a text is read as a tree, or as one item,
  that denotes an expression.

Main results:

* `Tessera.Pattern.written_row` — **pieces one after the other denote their expressions in a row**;
* `Tessera.Pattern.Written.group`, `Written.repeated` — what groups and repeated groups denote.
-/

import Tessera.Grammar.Template
import Tessera.Proofs.Pattern.Bounds

set_option autoImplicit false

namespace Tessera

namespace Pattern

/-! ### Trees of expressions -/

namespace Ast

/-- The tree, read with the flags at the beginning of a pattern, has no other meaning than the
expression. -/
def Denotes (a : Ast) (r : Regex) : Prop := ∀ r' m, a.regex? Mode.start = some (r', m) → r' = r

/-- A tree that denotes an expression and leaves the flags as they were. -/
def Piece (a : Ast) (r : Regex) : Prop :=
  ∀ r' m, a.regex? Mode.start = some (r', m) → m = Mode.start ∧ r' = r

variable {a : Ast} {as : List Ast} {r : Regex} {rs : List Regex}

/-- A group keeps the flags that are set in it to itself. -/
theorem Denotes.group (h : a.Denotes r) : Piece (.group [] a) r := by
  intro r' m hr
  simp only [regex?, Option.bind_eq_bind, Option.bind_eq_some_iff] at hr
  obtain ⟨⟨r₁, m₁⟩, ha, heq⟩ := hr
  cases heq
  exact ⟨rfl, h r₁ m₁ ha⟩

theorem Piece.repetition (h : a.Piece r) (min : Nat) (max : Option Nat) :
    Piece (.repetition a min max) (r.repetition min max) := by
  intro r' m hr
  simp only [regex?, Option.bind_eq_bind, Option.bind_eq_some_iff] at hr
  obtain ⟨⟨r₁, m₁⟩, ha, heq⟩ := hr
  cases heq
  obtain ⟨rfl, rfl⟩ := h r₁ m₁ ha
  exact ⟨rfl, rfl⟩

/-- A literal denotes the set of its character. -/
theorem piece_literal (c : Char) :
    Piece (.literal ⟨c, false⟩) (.set (CodePointSet.single c.toNat)) := by
  intro r m hr
  cases hr
  exact ⟨rfl, rfl⟩

theorem regexList?_pieces (h : List.Forall₂ Piece as rs) {rs' : List Regex} {m : Mode}
    (hrs : regexList? Mode.start as = some (rs', m)) : rs' = rs := by
  induction h generalizing rs' with
  | nil =>
      cases hrs
      rfl
  | cons ha _ ih =>
      simp only [regexList?, Option.bind_eq_bind, Option.bind_eq_some_iff] at hrs
      obtain ⟨⟨r₁, m₁⟩, hr, ⟨rs₁, m₂⟩, hrs, heq⟩ := hrs
      cases heq
      obtain ⟨rfl, rfl⟩ := ha r₁ m₁ hr
      rw [ih hrs]

/-- Pieces in a row denote their expressions one after the other. -/
theorem denotes_ofItems (h : List.Forall₂ Piece as rs) : (ofItems as).Denotes (Regex.seqs rs) := by
  intro r m hr
  have hlist : ∃ rs', regexList? Mode.start as = some (rs', m) ∧ r = Regex.seqs rs' := by
    unfold ofItems at hr
    split at hr
    · cases hr
      exact ⟨[], rfl, rfl⟩
    · exact ⟨[r], by simp [regexList?, hr], rfl⟩
    · simp only [regex?, Option.bind_eq_bind, Option.bind_eq_some_iff] at hr
      obtain ⟨⟨rs', m₁⟩, hrs, heq⟩ := hr
      cases heq
      exact ⟨rs', hrs, rfl⟩
  obtain ⟨rs', hrs, rfl⟩ := hlist
  rw [regexList?_pieces h hrs]

/-- One piece by itself. -/
theorem Piece.denotes (h : a.Piece r) : (ofItems [a]).Denotes r :=
  fun r' m hr => (h r' m hr).2

/-- Alternative pieces denote the alternatives of their expressions. -/
theorem denotes_alternation (h : List.Forall₂ Piece as rs) :
    Denotes (.alternation as) (Regex.alts rs) := by
  intro r m hr
  simp only [regex?, Option.bind_eq_bind, Option.bind_eq_some_iff] at hr
  obtain ⟨⟨rs', m₁⟩, hrs, heq⟩ := hr
  cases heq
  rw [regexList?_pieces h hrs]

end Ast

/-! ### Reading characters and counts -/

theorem readEscape_meta {verbose : Bool} {c : Char} (hc : isMeta c = true) (t : List Char) :
    readEscape verbose (c :: t) = some (.literal ⟨c, false⟩, t) := by
  have hother : (metaCharacters.all fun d =>
      !d.isDigit && !decide (d = 'x' ∨ d = 'u' ∨ d = 'U') && !decide (d = 'p' ∨ d = 'P')) = true := by
    decide
  have hother := List.all_eq_true.1 hother c (List.contains_iff_mem.1 hc)
  simp only [Bool.and_eq_true, Bool.not_eq_true', decide_eq_false_iff_not] at hother
  obtain ⟨⟨hdigit, hhex⟩, hproperty⟩ := hother
  have hescapable : isEscapable c = true := by simp [isEscapable, hc]
  simp only [readEscape]
  rw [if_neg (by simp [hdigit]), if_neg hhex, if_neg hproperty, if_pos hescapable]

theorem step_literal {r : Reading} {c : Char} (hc : isMeta c = false) (t : List Char) :
    r.step c t = some (r.withLevel (r.level.push (.literal ⟨c, false⟩)), t) := by
  unfold Reading.step
  split <;> first | rfl | exact absurd hc (by decide)

theorem isWhiteSpace_of_isDigit {c : Char} (hc : c.isDigit = true) : isWhiteSpace c = false := by
  have hrange : 48 ≤ c.toNat ∧ c.toNat ≤ 57 := by
    simpa [Char.isDigit, UInt32.le_iff_toNat_le] using hc
  have hdigits : ∀ i < 10, whiteSpace.contains (48 + i) = false := by decide
  have := hdigits (c.toNat - 48) (by omega)
  rwa [Nat.add_sub_cancel' hrange.1] at this

theorem readWhile_all {p : Char → Bool} {read : List Char} (hread : ∀ c ∈ read, p c = true)
    {c : Char} (hc : p c = false) (rest : List Char) {fuel : Nat} (hfuel : read.length ≤ fuel) :
    readWhile false p fuel (read ++ c :: rest) = (read, c :: rest) := by
  induction read generalizing fuel with
  | nil => cases fuel <;> simp [readWhile, hc]
  | cons d ds ih =>
      obtain ⟨fuel, rfl⟩ : ∃ k, fuel = k + 1 := ⟨fuel - 1, by simp at hfuel; omega⟩
      obtain ⟨hd, hds⟩ := List.forall_mem_cons.1 hread
      have hrest := ih hds (Nat.le_of_succ_le_succ hfuel)
      simp [readWhile, hd, skipBlanks, hrest]

theorem digits_ne_nil (n : Nat) : Template.digits n ≠ [] := Nat.toDigits_ne_nil

theorem isDigit_of_mem_digits {n : Nat} {c : Char} (hc : c ∈ Template.digits n) :
    c.isDigit = true := Nat.isDigit_of_mem_toDigits (by decide) (by decide) hc

theorem readDecimal_digits (n : Nat) {c : Char} (hdigit : c.isDigit = false)
    (hblank : isWhiteSpace c = false) (rest : List Char) :
    readDecimal false (Template.digits n ++ c :: rest) =
      (if maxCount < n then none else some n, c :: rest) := by
  have hdigits : ∀ d ∈ Template.digits n, d.isDigit = true := fun d => isDigit_of_mem_digits
  have hne := digits_ne_nil n
  have hbody : (Template.digits n ++ c :: rest).dropWhile isWhiteSpace = Template.digits n ++ c :: rest := by
    obtain ⟨d, ds, hcons⟩ := List.exists_cons_of_ne_nil hne
    rw [hcons, List.cons_append, List.dropWhile_cons,
      isWhiteSpace_of_isDigit (hdigits d (by simp [hcons]))]
    simp
  have hvalue : (Template.digits n).foldl (fun n c => 10 * n + (c.toNat - '0'.toNat)) 0 = n := by
    rw [← Nat.ofDigitChars_eq_foldl]
    exact Nat.ofDigitChars_ten_toDigits
  have hread : readWhile false Char.isDigit (Template.digits n ++ c :: rest).length (Template.digits n ++ c :: rest) =
      (Template.digits n, c :: rest) := readWhile_all hdigits hdigit rest (by simp)
  have hblanks : readWhile false isWhiteSpace (c :: rest).length (c :: rest) = ([], c :: rest) :=
    readWhile_all (List.forall_mem_nil _) hblank rest (Nat.zero_le _)
  simp only [readDecimal, hbody, hread, hblanks, hvalue]
  simp [hne]
theorem closeCount_brace {bounds bounds' : Nat × Option Nat} {rest rest' : List Char}
    (h : closeCount false bounds ('\x7d' :: rest) = some (bounds', rest')) :
    bounds' = bounds ∧ rest' = skipLazy rest := by
  obtain ⟨checked, hcheck, heq⟩ := Option.map_eq_some_iff.1 h
  unfold checkBounds at hcheck
  rw [Option.ite_none_right_eq_some] at hcheck
  obtain ⟨-, hcheck⟩ := hcheck
  cases hcheck
  cases heq
  exact ⟨rfl, rfl⟩

/-- A count that can be read begins with its lower bound. -/
theorem readCount_digits {n : Nat} {c : Char} (hdigit : c.isDigit = false)
    (hblank : isWhiteSpace c = false) {rest rest' : List Char} {bounds : Nat × Option Nat}
    (h : readCount false (Template.digits n ++ c :: rest) = some (bounds, rest')) :
    readUpper false n (c :: rest) = some (bounds, rest') := by
  unfold readCount at h
  split at h
  · simp at h
  · have hdecimal := readDecimal_digits n hdigit hblank rest
    simp only [skipBlanks, Bool.false_eq_true, if_false, hdecimal] at h
    split at h
    · simp at h
    · next heq =>
      obtain ⟨hsome, hrest⟩ := Prod.mk.inj heq
      rw [Option.ite_none_left_eq_some] at hsome
      obtain ⟨-, hsome⟩ := hsome
      cases hsome
      cases hrest
      exact h

/-- A written count is read as its bounds, unless they are too large. -/
theorem readCount_bounds {min : Nat} {max : Option Nat} {rest rest' : List Char}
    {bounds : Nat × Option Nat}
    (h : readCount false
      (match max with
        | none => Template.digits min ++ ',' :: '\x7d' :: rest
        | some max =>
            if min = max then Template.digits min ++ '\x7d' :: rest
            else Template.digits min ++ ',' :: (Template.digits max ++ '\x7d' :: rest)) =
      some (bounds, rest')) :
    bounds = (min, max) ∧ rest' = skipLazy rest := by
  have hcomma : Char.isDigit ',' = false ∧ isWhiteSpace ',' = false := by decide
  have hbrace : Char.isDigit '\x7d' = false ∧ isWhiteSpace '\x7d' = false := by decide
  cases max with
  | none => exact closeCount_brace (readCount_digits hcomma.1 hcomma.2 h)
  | some max =>
      dsimp only at h
      split at h
      · next heq =>
        subst heq
        exact closeCount_brace (readCount_digits hbrace.1 hbrace.2 h)
      · have hupper := readCount_digits hcomma.1 hcomma.2 h
        have hdecimal := readDecimal_digits max hbrace.1 hbrace.2 rest
        simp only [readUpper, skipBlanks, Bool.false_eq_true, if_false] at hupper
        split at hupper
        · next heq =>
          obtain ⟨d, ds, hdigits⟩ := List.exists_cons_of_ne_nil (digits_ne_nil max)
          have hd : d.isDigit = true :=
            isDigit_of_mem_digits (n := max) (hdigits ▸ List.mem_cons_self)
          rw [hdigits] at heq
          rw [(List.cons.inj heq).1] at hd
          exact absurd hd (by decide)
        · rw [hdecimal] at hupper
          split at hupper
          · simp at hupper
          · next heq =>
            obtain ⟨hsome, hrest⟩ := Prod.mk.inj heq
            rw [Option.ite_none_left_eq_some] at hsome
            obtain ⟨-, hsome⟩ := hsome
            cases hsome
            cases hrest
            exact closeCount_brace hupper

/-! ### Reading pieces -/

/-- Adds several items to the current alternative. -/
def Level.pushAll (l : Level) (as : List Ast) : Level := { l with items := as.reverse ++ l.items }

section Reading

variable {l : Level} {stack : List OpenGroup} {names : List String} {s : List Char} {a b : Ast}

/-- No question mark follows, which would belong to a repetition. -/
def NoQuestion (s : List Char) : Prop := s.head? ≠ some '?'

theorem skipLazy_lazyMark (hs : NoQuestion s) (lazy : Bool) :
    skipLazy (Template.lazyMark lazy ++ s) = s := by
  cases lazy with
  | true => rfl
  | false =>
      show skipLazy s = s
      unfold skipLazy
      split
      · next cs => exact absurd rfl hs
      · rfl

/-- A group is repeated as often as the count says. -/
theorem runs_count (hl : l.verbose = false) {items : List FlagItem} {min : Nat} {max : Option Nat}
    {lazy : Bool} (hs : NoQuestion s)
    (h : Runs ⟨l.push (.group items a), stack, names⟩
      (Template.countText min max ++ (Template.lazyMark lazy ++ s)) b) :
    Runs ⟨l.push (.repetition (.group items a) min max), stack, names⟩ s b := by
  have hlazy := skipLazy_lazyMark hs lazy
  have hskip (t : List Char) : skipBlanks (l.push (.group items a)).verbose t = t := by
    show skipBlanks l.verbose t = t
    rw [hl]
    rfl
  have hshort {c : Char} (hstep : Reading.step ⟨l.push (.group items a), stack, names⟩ c
        (Template.lazyMark lazy ++ s) =
          some (⟨l.push (.repetition (.group items a) min max), stack, names⟩,
            skipLazy (Template.lazyMark lazy ++ s)))
      (h : Runs ⟨l.push (.group items a), stack, names⟩ (c :: (Template.lazyMark lazy ++ s)) b) :
      Runs ⟨l.push (.repetition (.group items a) min max), stack, names⟩ s b := by
    rw [hlazy] at hstep
    exact (Runs.step_iff (r := ⟨_, stack, names⟩) (hskip _) hstep).1 h
  have hbraces {t : List Char}
      (h : Runs ⟨l.push (.group items a), stack, names⟩ ('\x7b' :: t) b)
      (ht : ∀ bounds rest, readCount false t = some (bounds, rest) →
        bounds = (min, max) ∧ rest = skipLazy (Template.lazyMark lazy ++ s)) :
      Runs ⟨l.push (.repetition (.group items a) min max), stack, names⟩ s b := by
    obtain ⟨r', rest, hstep, hrun⟩ := (Runs.cons_iff (r := ⟨_, stack, names⟩) (hskip _)).1 h
    simp only [Reading.step] at hstep
    split at hstep
    · simp at hstep
    · next min' max' rest' hcount =>
      have hcount : readCount l.verbose t = some ((min', max'), rest') := hcount
      rw [hl] at hcount
      obtain ⟨hbounds, hrest⟩ := ht _ _ hcount
      cases hbounds
      cases hstep
      rwa [hrest, hlazy] at hrun
  unfold Template.countText at h
  split at h
  · exact hshort rfl h
  · exact hshort rfl h
  · exact hshort rfl h
  · refine hbraces h fun bounds rest hcount => readCount_bounds ?_
    simpa using hcount
  · next max _ _ =>
    split at h
    · next heq =>
      refine hbraces h fun bounds rest hcount => readCount_bounds ?_
      simpa [heq] using hcount
    · next heq =>
      refine hbraces h fun bounds rest hcount => readCount_bounds ?_
      simpa [heq] using hcount

end Reading

/-! ### Written pieces -/

/-- Where a written pattern ends: at the end of the text or of a group. -/
inductive Ends : List OpenGroup → List String → List Char → Prop
  | text : Ends [] [] []
  | group (stack : List OpenGroup) (names : List String) (s : List Char) :
      Ends stack names (')' :: s)

theorem Ends.noQuestion {stack : List OpenGroup} {names : List String} {s : List Char}
    (h : Ends stack names s) : NoQuestion s := by
  cases h <;> simp [NoQuestion]

/-- The text is read as a tree that denotes the expression. -/
def Written (text : List Char) (r : Regex) : Prop :=
  ∀ stack names s b, Ends stack names s → Runs ⟨.start false, stack, names⟩ (text ++ s) b →
    ∃ l names', Runs ⟨l, stack, names'⟩ s b ∧ l.tree.Denotes r

/-- The text is read as a single item that denotes the expression. -/
structure WrittenPiece (text : List Char) (r : Regex) : Prop where
  noQuestion : ∀ s, NoQuestion s → NoQuestion (text ++ s)
  runs : ∀ l stack names s b, l.verbose = false → NoQuestion s →
    Runs ⟨l, stack, names⟩ (text ++ s) b →
      ∃ a names', Runs ⟨l.push a, stack, names'⟩ s b ∧ a.Piece r

section Written

variable {text : List Char} {texts : List (List Char)} {r : Regex} {rs : List Regex}

theorem WrittenPiece.flatten_noQuestion (h : List.Forall₂ WrittenPiece texts rs) {s : List Char}
    (hs : NoQuestion s) : NoQuestion (texts.flatten ++ s) := by
  induction h with
  | nil => exact hs
  | cons htext _ ih =>
      rw [List.flatten_cons, List.append_assoc]
      exact htext.noQuestion _ ih

theorem runs_pieces (h : List.Forall₂ WrittenPiece texts rs) {l : Level} {stack : List OpenGroup}
    {names : List String} {s : List Char} {b : Ast} (hl : l.verbose = false) (hs : NoQuestion s)
    (hrun : Runs ⟨l, stack, names⟩ (texts.flatten ++ s) b) :
    ∃ as names', Runs ⟨l.pushAll as, stack, names'⟩ s b ∧ List.Forall₂ Ast.Piece as rs := by
  induction h generalizing l names with
  | nil => exact ⟨[], names, hrun, .nil⟩
  | cons htext htexts ih =>
      rw [List.flatten_cons, List.append_assoc] at hrun
      obtain ⟨a, names₁, hrun₁, ha⟩ :=
        htext.runs l stack names _ b hl (WrittenPiece.flatten_noQuestion htexts hs) hrun
      obtain ⟨as, names₂, hrun₂, has⟩ := ih (l := l.push a) hl hrun₁
      refine ⟨a :: as, names₂, ?_, .cons ha has⟩
      simpa [Level.pushAll, Level.push] using hrun₂

/-- **Pieces one after the other denote their expressions in a row.** -/
theorem written_row (h : List.Forall₂ WrittenPiece texts rs) :
    Written texts.flatten (Regex.seqs rs) := by
  intro stack names s b hs hrun
  obtain ⟨as, names', hrun', has⟩ := runs_pieces h rfl hs.noQuestion hrun
  refine ⟨_, names', hrun', ?_⟩
  have htree : ((Level.start false).pushAll as).tree = Ast.ofItems as := by
    simp [Level.tree, Level.pushAll, Level.start]
  rw [htree]
  exact Ast.denotes_ofItems has

theorem WrittenPiece.written (h : WrittenPiece text r) : Written text r := by
  have hrow := written_row (.cons h .nil)
  rwa [List.flatten_cons, List.flatten_nil, List.append_nil] at hrow

/-- A group is read as an item. -/
theorem Written.runs_group (h : Written text r) {l : Level} {stack : List OpenGroup}
    {names : List String} {s : List Char} {b : Ast} (hl : l.verbose = false)
    (hrun : Runs ⟨l, stack, names⟩ (Template.group text ++ s) b) :
    ∃ a names', Runs ⟨l.push (.group [] a), stack, names'⟩ s b ∧ a.Denotes r := by
  have htext : Template.group text ++ s = '(' :: '?' :: ':' :: (text ++ ')' :: s) := by
    simp [Template.group]
  rw [htext, runs_open hl] at hrun
  obtain ⟨l', names', hclose, hdenotes⟩ := h _ names _ b (.group _ names s) hrun
  exact ⟨l'.tree, names', runs_close.1 hclose, hdenotes⟩

theorem Written.group (h : Written text r) : WrittenPiece (Template.group text) r where
  noQuestion s _ := by simp [Template.group, NoQuestion]
  runs l stack names s b hl _ hrun := by
    obtain ⟨a, names', hrun', hdenotes⟩ := h.runs_group hl hrun
    exact ⟨_, names', hrun', hdenotes.group⟩

/-- A repeated group denotes the repetition of what stands in it. -/
theorem Written.repeated (h : Written text r) (min : Nat) (max : Option Nat) (lazy : Bool) :
    WrittenPiece (Template.repeatedText text min max lazy) (r.repetition min max) where
  noQuestion s _ := by simp [Template.repeatedText, Template.group, NoQuestion]
  runs l stack names s b hl hs hrun := by
    rw [Template.repeatedText, List.append_assoc, List.append_assoc] at hrun
    obtain ⟨a, names', hrun', hdenotes⟩ := h.runs_group hl hrun
    exact ⟨_, names', runs_count hl hs hrun', hdenotes.group.repetition min max⟩

/-- An escaped character denotes the set of itself. -/
theorem writtenPiece_char (c : Char) :
    WrittenPiece (if isMeta c then ['\\', c] else [c]) (.set (CodePointSet.single c.toNat)) where
  noQuestion s _ := by
    by_cases hc : isMeta c
    · simp [hc, NoQuestion]
    · have hne : c ≠ '?' := by
        rintro rfl
        exact hc (by decide)
      simp [hc, NoQuestion, hne]
  runs l stack names s b hl _ hrun := by
    have hskip (t : List Char) : skipBlanks l.verbose t = t := by
      rw [hl]
      rfl
    refine ⟨.literal ⟨c, false⟩, names, ?_, Ast.piece_literal c⟩
    cases hc : isMeta c with
    | true =>
        rw [hc] at hrun
        refine (Runs.step_iff (r := ⟨l, stack, names⟩) (hskip _) ?_).1 hrun
        simp [Reading.step, readEscape_meta hc, Primitive.toAst, Reading.withLevel]
    | false =>
        rw [hc] at hrun
        exact (Runs.step_iff (r := ⟨l, stack, names⟩) (hskip _) (step_literal hc _)).1 hrun

end Written

end Pattern

end Tessera
