/-
**Reading a bracketed class inside of a group.**

A class ends at its closing bracket, so it is read the same when a closing parenthesis and more of a
pattern follow: brackets that are closed without what follows are closed by the same characters with
it.  Between the parts of a class blanks are skipped, so what is left is compared after that.

Main definitions:

* `Tessera.Pattern.Extends` — a text goes on like another one and then with what follows.

Main results:

* `Tessera.Pattern.readClass_append` — **a class is read the same when more follows**.
-/

import Mathlib.Data.List.TakeWhile
import Tessera.Proofs.Pattern.Locality

set_option autoImplicit false

namespace Tessera.Pattern

variable {verbose : Bool}

/-! ### Texts that go on -/

/-- After blanks, `t'` goes on like `t` and then with `s`, unless nothing is left of `t`. -/
def Extends (verbose : Bool) (s t t' : List Char) : Prop :=
  ∀ c cs, skipBlanks verbose t = c :: cs → skipBlanks verbose t' = c :: (cs ++ s)

theorem Extends.append (t s : List Char) : Extends verbose s t (t ++ s) :=
  fun _ _ h => skipBlanks_append h s

/-- What is left while something follows goes on. -/
theorem ReadsWithin.goes_on {α : Type} {f : List Char → Option (α × List Char)}
    {t rest : List Char} {x : α} (h : ReadsWithin verbose f t) (hread : f t = some (x, rest))
    (hne : skipBlanks verbose rest ≠ []) (s : List Char) :
    ∃ rest', f (t ++ ')' :: s) = some (x, rest') ∧ Extends verbose (')' :: s) rest rest' := by
  obtain ⟨raw, hraw, hwithin⟩ := h x rest hread
  obtain ⟨c, cs, hskip⟩ := List.exists_cons_of_ne_nil hne
  have hrawskip : skipBlanks verbose raw = c :: cs := hraw.symm.trans hskip
  have hclosed : ¬OpenComment verbose raw := fun hopen => by
    rw [hopen.blank] at hrawskip
    simp at hrawskip
  obtain ⟨rest', hread', hrest'⟩ := hwithin s fun hopen => absurd hopen hclosed
  refine ⟨rest', hread', fun d ds hd => ?_⟩
  rw [hrest']
  exact skipBlanks_append (hraw.symm.trans hd) _

/-! ### Single items -/

theorem readClassItem_within (t : List Char) :
    ReadsWithin verbose (readClassItem verbose) t := by
  cases t with
  | nil =>
      intro x rest h
      simp [readClassItem] at h
  | cons c cs =>
      by_cases hbackslash : c = '\\'
      · subst hbackslash
        exact readEscape_within cs
      · refine .of_append fun x rest h s => ?_
        have hread : ∀ u, readClassItem verbose (c :: u) = some (.literal ⟨c, false⟩, u) :=
          fun u => by simp [readClassItem]
        rw [hread] at h
        cases h
        exact hread _

/-- The name of an ASCII class has no parenthesis. -/
theorem asciiClass?_eq_none {name : List Char} (h : ')' ∈ name) :
    asciiClass? (String.ofList name) = none := by
  have hne : ∀ known : String, ')' ∉ known.toList → String.ofList name ≠ known := by
    rintro known hknown rfl
    exact hknown (by simpa using h)
  unfold asciiClass?
  split
  all_goals first | rfl | exact absurd ‹_› (hne _ (by decide))

/-- What follows the colon of a named ASCII class and the sign of its negation. -/
def readAsciiName (negated : Bool) (body : List Char) : Option (ClassExpr × List Char) :=
  match asciiClass? (String.ofList (body.takeWhile (· != ':'))), body.dropWhile (· != ':') with
  | some name, ':' :: ']' :: rest => some (.ascii negated name, rest)
  | _, _ => none

theorem readAsciiName_append {negated : Bool} {t rest : List Char} {x : ClassExpr}
    (h : readAsciiName negated t = some (x, rest)) (s : List Char) :
    readAsciiName negated (t ++ s) = some (x, rest ++ s) := by
  unfold readAsciiName at h
  split at h
  · next name inner hname hdrop =>
    cases h
    obtain ⟨htake', hdrop'⟩ := span_append (by simp [hdrop] : t.dropWhile (· != ':') ≠ []) s
    simp [readAsciiName, htake', hname, hdrop', hdrop]
  · simp at h

theorem readAsciiName_eq_none {negated : Bool} {t : List Char} (h : readAsciiName negated t = none)
    (s : List Char) : readAsciiName negated (t ++ ')' :: s) = none := by
  unfold readAsciiName
  by_cases hend : t.dropWhile (· != ':') = []
  · have hall : ∀ c ∈ t, (c != ':') = true := List.dropWhile_eq_nil_iff.1 hend
    have hparen : ')' ∈ (t ++ ')' :: s).takeWhile (· != ':') := by
      rw [List.takeWhile_append_of_pos hall]
      simp
    rw [asciiClass?_eq_none hparen]
  · obtain ⟨htake', hdrop'⟩ := span_append hend (')' :: s)
    obtain ⟨c, cs, hdrop⟩ := List.exists_cons_of_ne_nil hend
    rw [htake', hdrop', hdrop]
    unfold readAsciiName at h
    rw [hdrop] at h
    split
    · next name inner hname heq =>
      rcases cs with _ | ⟨d, ds⟩
      · simp at heq
      · obtain ⟨rfl, hds⟩ := List.cons.inj heq
        obtain ⟨rfl, -⟩ := List.cons.inj hds
        simp [hname] at h
    · rfl

theorem readAsciiClass_colon {c : Char} (hc : c ≠ '^') (t : List Char) :
    readAsciiClass (':' :: c :: t) = readAsciiName false (c :: t) := by
  simp [readAsciiClass, hc]
  rfl

theorem readAsciiClass_append {t rest : List Char} {x : ClassExpr}
    (h : readAsciiClass t = some (x, rest)) (s : List Char) :
    readAsciiClass (t ++ s) = some (x, rest ++ s) := by
  rcases t with _ | ⟨c, cs⟩
  · simp [readAsciiClass] at h
  by_cases hcolon : c = ':'
  · subst hcolon
    rcases cs with _ | ⟨d, ds⟩
    · simp [readAsciiClass] at h
    by_cases hcaret : d = '^'
    · subst hcaret
      exact readAsciiName_append (t := ds) h s
    · rw [readAsciiClass_colon hcaret] at h
      rw [List.cons_append, List.cons_append, readAsciiClass_colon hcaret]
      exact readAsciiName_append h s
  · simp [readAsciiClass, hcolon] at h

theorem readAsciiClass_eq_none {t : List Char} (h : readAsciiClass t = none) (s : List Char) :
    readAsciiClass (t ++ ')' :: s) = none := by
  rcases t with _ | ⟨c, cs⟩
  · rfl
  by_cases hcolon : c = ':'
  · subst hcolon
    rcases cs with _ | ⟨d, ds⟩
    · exact readAsciiName_eq_none (t := []) rfl s
    by_cases hcaret : d = '^'
    · subst hcaret
      exact readAsciiName_eq_none (t := ds) h s
    · rw [readAsciiClass_colon hcaret] at h
      rw [List.cons_append, List.cons_append, readAsciiClass_colon hcaret]
      exact readAsciiName_eq_none h s
  · simp [readAsciiClass, hcolon]

/-! ### Hyphens -/

/-- The next character after blanks is the same when more follows. -/
theorem head?_dropWhile_append {p : Char → Bool} {t : List Char} {c : Char}
    (h : (t.dropWhile p).head? = some c) (s : List Char) :
    ((t ++ s).dropWhile p).head? = some c := by
  have hne : t.dropWhile p ≠ [] := fun hnil => by simp [hnil] at h
  rw [(span_append hne s).2]
  simp [List.head?_append, h]

theorem afterHyphen_append {t : List Char} {c : Char} (h : afterHyphen verbose t = some c)
    (s : List Char) : afterHyphen verbose (t ++ s) = some c := by
  cases verbose with
  | false =>
      have h : t.head? = some c := h
      show (t ++ s).head? = some c
      simp [List.head?_append, h]
  | true =>
      simp only [afterHyphen, if_true] at h ⊢
      cases hblank : t.dropWhile isWhiteSpace with
      | nil => simp [hblank] at h
      | cons d ds =>
          have hblank' : (t ++ s).dropWhile isWhiteSpace = d :: (ds ++ s) := by
            rw [(span_append (by simp [hblank]) s).2, hblank]
            rfl
          rw [hblank] at h
          rw [hblank']
          by_cases hhash : d = '#'
          · subst hhash
            exact head?_dropWhile_append h s
          · simpa [hhash] using h

theorem skipVerbose_dropWhile (t : List Char) :
    skipVerbose false (t.dropWhile isWhiteSpace) = skipVerbose false t := by
  induction t with
  | nil => rfl
  | cons c cs ih => by_cases hc : isWhiteSpace c <;> simp [hc, ih, skipVerbose]

theorem skipVerbose_of_blank {t : List Char} (h : ∀ c ∈ t, isWhiteSpace c = true) (comment : Bool) :
    skipVerbose comment t = [] := by
  induction t generalizing comment with
  | nil => rfl
  | cons c cs ih =>
      have hcs : ∀ d ∈ cs, isWhiteSpace d = true := fun d hd => h d (List.mem_cons_of_mem c hd)
      cases comment <;> simp [skipVerbose, h c List.mem_cons_self, ih hcs]

/-- Where nothing decides about a hyphen, nothing but blanks follows. -/
theorem skipBlanks_of_afterHyphen {t : List Char} (h : afterHyphen verbose t = none) :
    skipBlanks verbose t = [] := by
  cases verbose with
  | false => exact List.head?_eq_none_iff.1 h
  | true =>
      simp only [afterHyphen, if_true] at h
      rw [skipBlanks, if_pos rfl, ← skipVerbose_dropWhile]
      cases hblank : t.dropWhile isWhiteSpace with
      | nil => rfl
      | cons d ds =>
          rw [hblank] at h
          by_cases hhash : d = '#'
          · subst hhash
            have hds : ∀ c ∈ ds, isWhiteSpace c = true :=
              List.dropWhile_eq_nil_iff.1 (List.head?_eq_none_iff.1 h)
            have hsharp : isWhiteSpace '#' = false := by decide
            simp [skipVerbose, hsharp, skipVerbose_of_blank hds]
          · simp [hhash] at h

/-! ### Ranges -/

/-- A range between two characters, given its first item and what follows the hyphen. -/
def readRangeEnd (verbose : Bool) (first : Primitive) (text : List Char) :
    Option (ClassExpr × List Char) :=
  (readClassItem verbose text).bind fun (last, rest) =>
    match first, last with
    | .literal lo, .literal hi =>
        if lo.char ≤ hi.char then some (.range lo hi, rest) else none
    | _, _ => none

theorem readRangeEnd_within (first : Primitive) (t : List Char) :
    ReadsWithin verbose (readRangeEnd verbose first) t := by
  intro x rest h
  obtain ⟨⟨last, inner⟩, hlast, h⟩ := Option.bind_eq_some_iff.1 h
  obtain ⟨raw, hraw, hwithin⟩ := readClassItem_within t last inner hlast
  dsimp only at h
  split at h
  · next lo hi _ _ =>
    rw [Option.ite_none_right_eq_some] at h
    obtain ⟨hle, h⟩ := h
    cases h
    refine ⟨raw, hraw, fun s hopen => ?_⟩
    obtain ⟨rest', hread', hrest'⟩ := hwithin s hopen
    exact ⟨rest', by simp [readRangeEnd, hread', hle], hrest'⟩
  · simp at h

theorem readClassRange_alone {t after ds : List Char} {first : Primitive} {d : Char}
    (hfirst : readClassItem verbose t = some (first, after))
    (hskip : skipBlanks verbose after = d :: ds) (hd : d ≠ '-') :
    readClassRange verbose t = first.toClass?.map fun item => (item, d :: ds) := by
  simp only [readClassRange, hfirst, Option.bind_eq_bind, Option.bind_some, hskip]
  split
  · next heq => exact absurd heq (List.cons_ne_nil d ds)
  · next heq => exact absurd (List.cons.inj heq).1 hd
  · cases first.toClass? <;> rfl

theorem readClassRange_hyphen {t after ds : List Char} {first : Primitive}
    (hfirst : readClassItem verbose t = some (first, after))
    (hskip : skipBlanks verbose after = '-' :: ds) :
    readClassRange verbose t =
      if afterHyphen verbose ds = some ']' ∨ afterHyphen verbose ds = some '-' then
        first.toClass?.map fun item => (item, '-' :: ds)
      else if skipBlanks verbose ds = [] then none
      else readRangeEnd verbose first (skipBlanks verbose ds) := by
  simp only [readClassRange, hfirst, Option.bind_eq_bind, Option.bind_some, hskip]
  split
  · cases first.toClass? <;> rfl
  · cases skipBlanks verbose ds with
    | nil => rfl
    | cons e es =>
        rw [if_neg (List.cons_ne_nil e es)]
        rfl

theorem readClassRange_goes_on {t rest : List Char} {x : ClassExpr}
    (h : readClassRange verbose t = some (x, rest)) (hne : skipBlanks verbose rest ≠ [])
    (s : List Char) :
    ∃ rest', readClassRange verbose (t ++ ')' :: s) = some (x, rest') ∧
      Extends verbose (')' :: s) rest rest' := by
  cases hfirst : readClassItem verbose t with
  | none => simp [readClassRange, hfirst] at h
  | some p =>
      obtain ⟨first, after⟩ := p
      cases hskip : skipBlanks verbose after with
      | nil => simp [readClassRange, hfirst, hskip] at h
      | cons d ds =>
          obtain ⟨after', hfirst', hafter⟩ :=
            (readClassItem_within t).goes_on hfirst (by simp [hskip]) s
          have hskip' := hafter d ds hskip
          by_cases hd : d = '-'
          · subst hd
            rw [readClassRange_hyphen hfirst hskip] at h
            rw [readClassRange_hyphen hfirst' hskip']
            split at h
            · next hclose =>
              have hclose' : afterHyphen verbose (ds ++ ')' :: s) = some ']' ∨
                  afterHyphen verbose (ds ++ ')' :: s) = some '-' :=
                hclose.imp (afterHyphen_append · _) (afterHyphen_append · _)
              obtain ⟨item, hitem, heq⟩ := Option.map_eq_some_iff.1 h
              obtain ⟨rfl, rfl⟩ := Prod.mk.inj heq
              rw [if_pos hclose', hitem]
              exact ⟨_, rfl, Extends.append ('-' :: ds) _⟩
            · next hclose =>
              rw [Option.ite_none_left_eq_some] at h
              obtain ⟨hbody, h⟩ := h
              obtain ⟨e, es, hcons⟩ := List.exists_cons_of_ne_nil hbody
              have hafter : afterHyphen verbose (ds ++ ')' :: s) = afterHyphen verbose ds := by
                cases hlast : afterHyphen verbose ds with
                | none => exact absurd (skipBlanks_of_afterHyphen hlast) hbody
                | some c => exact afterHyphen_append hlast _
              rw [hafter, if_neg hclose, skipBlanks_append hcons, if_neg (List.cons_ne_nil _ _),
                ← List.cons_append, ← hcons]
              exact (readRangeEnd_within first _).goes_on h hne s
          · rw [readClassRange_alone hfirst hskip hd] at h
            obtain ⟨item, hitem, heq⟩ := Option.map_eq_some_iff.1 h
            obtain ⟨rfl, rfl⟩ := Prod.mk.inj heq
            refine ⟨_, by rw [readClassRange_alone hfirst' hskip' hd, hitem]; rfl, ?_⟩
            exact Extends.append (d :: ds) _

/-! ### Openings of classes -/

theorem readLeadingHyphens_append {n m : Nat} (hle : n ≤ m) {items items' : List ClassExpr}
    {t rest : List Char} (h : readLeadingHyphens verbose n items t = some (items', rest))
    (s : List Char) :
    readLeadingHyphens verbose m items (t ++ s) = some (items', rest ++ s) := by
  induction n generalizing m items t with
  | zero => simp [readLeadingHyphens] at h
  | succ n ih =>
      obtain ⟨m, rfl⟩ : ∃ k, m = k + 1 := ⟨m - 1, by omega⟩
      rcases t with _ | ⟨c, cs⟩
      · simp [readLeadingHyphens] at h
      rw [readLeadingHyphens] at h
      rw [List.cons_append, readLeadingHyphens]
      split at h
      · next hc =>
        rw [if_pos hc]
        cases hskip : skipBlanks verbose cs with
        | nil =>
            rw [hskip] at h
            cases n <;> simp [readLeadingHyphens] at h
        | cons d ds =>
            rw [hskip] at h
            rw [skipBlanks_append hskip]
            exact ih (Nat.le_of_succ_le_succ hle) h
      · next hc =>
        rw [if_neg hc]
        split at h
        · next hclose =>
          rw [if_pos hclose]
          cases hskip : skipBlanks verbose cs with
          | nil => simp [hskip] at h
          | cons d ds =>
              simp only [hskip] at h
              cases h
              simp only [skipBlanks_append hskip, List.cons_append]
        · next hclose =>
          rw [if_neg hclose]
          cases h
          rfl

/-- The beginning of a class after the sign of its negation. -/
def readOpeningBody (verbose negated : Bool) (body : List Char) :
    Option (Bool × List ClassExpr × List Char) :=
  (readLeadingHyphens verbose (body.length + 1) [] body).map fun (items, rest) =>
    (negated, items, rest)

theorem readOpeningBody_append {t rest : List Char} {negated negated' : Bool}
    {items : List ClassExpr}
    (h : readOpeningBody verbose negated t = some (negated', items, rest)) (s : List Char) :
    readOpeningBody verbose negated (t ++ s) = some (negated', items, rest ++ s) := by
  obtain ⟨⟨items', inner⟩, hread, heq⟩ := Option.map_eq_some_iff.1 h
  cases heq
  have hread' : readLeadingHyphens verbose ((t ++ s).length + 1) [] (t ++ s) =
      some (items, rest ++ s) := readLeadingHyphens_append (by simp) hread s
  rw [readOpeningBody, hread']
  rfl

theorem readClassOpening_caret {t cs : List Char} (hskip : skipBlanks verbose t = '^' :: cs) :
    readClassOpening verbose t = readOpeningBody verbose true (skipBlanks verbose cs) := by
  simp only [readClassOpening, readOpeningBody, hskip]
  cases readLeadingHyphens verbose ((skipBlanks verbose cs).length + 1) [] (skipBlanks verbose cs) <;>
    rfl

theorem readClassOpening_plain {t cs : List Char} {c : Char}
    (hskip : skipBlanks verbose t = c :: cs) (hc : c ≠ '^') :
    readClassOpening verbose t = readOpeningBody verbose false (c :: cs) := by
  simp only [readClassOpening, readOpeningBody, hskip]
  split
  · next heq => exact absurd (List.cons.inj heq).1 hc
  · cases readLeadingHyphens verbose ((c :: cs).length + 1) [] (c :: cs) <;> rfl

theorem readClassOpening_append {t rest : List Char} {negated : Bool} {items : List ClassExpr}
    (h : readClassOpening verbose t = some (negated, items, rest)) (s : List Char) :
    readClassOpening verbose (t ++ s) = some (negated, items, rest ++ s) := by
  cases hskip : skipBlanks verbose t with
  | nil => simp [readClassOpening, hskip, readLeadingHyphens] at h
  | cons c cs =>
      by_cases hcaret : c = '^'
      · subst hcaret
        rw [readClassOpening_caret hskip] at h
        rw [readClassOpening_caret (skipBlanks_append hskip s)]
        cases hbody : skipBlanks verbose cs with
        | nil => simp [hbody, readOpeningBody, readLeadingHyphens] at h
        | cons d ds =>
            rw [skipBlanks_append hbody]
            rw [hbody] at h
            exact readOpeningBody_append h s
      · rw [readClassOpening_plain hskip hcaret] at h
        rw [readClassOpening_plain (skipBlanks_append hskip s) hcaret]
        exact readOpeningBody_append h s

/-! ### Items of classes -/

/-- The operation that two characters stand for. -/
def operation? (c d : Char) : Option ClassOp :=
  if c = d then
    match c with
    | '&' => some .intersection
    | '-' => some .difference
    | '~' => some .symmetricDifference
    | _ => none
  else none

section Items

variable {n : Nat} {stack : List ClassFrame} {items : List ClassExpr} {t cs : List Char} {c d : Char}

theorem readClassItems_operation {kind : ClassOp} (hskip : skipBlanks verbose t = c :: d :: cs)
    (hop : operation? c d = some kind) :
    readClassItems verbose (n + 1) stack items t =
      readClassItems verbose n
        (.operation kind (applyPending (ClassExpr.ofItems items.reverse) stack).1 ::
          (applyPending (ClassExpr.ofItems items.reverse) stack).2) [] cs := by
  unfold operation? at hop
  split at hop
  · next heq =>
    subst heq
    rw [readClassItems]
    split at hop <;> cases hop <;> simp only [hskip]
  · cases hop

theorem readClassItems_range (hskip : skipBlanks verbose t = c :: d :: cs)
    (hop : operation? c d = none) (hopen : c ≠ '[') (hclose : c ≠ ']') :
    readClassItems verbose (n + 1) stack items t =
      (readClassRange verbose (c :: d :: cs)).bind fun (item, rest) =>
        readClassItems verbose n stack (item :: items) rest := by
  have hpair {a : Char} {rest : List Char} (heq : c :: d :: cs = a :: a :: rest) :
      operation? a a = none := by
    obtain ⟨rfl, htail⟩ := List.cons.inj heq
    obtain ⟨rfl, -⟩ := List.cons.inj htail
    exact hop
  rw [readClassItems]
  simp only [hskip]
  split
  · next heq => exact absurd heq (List.cons_ne_nil _ _)
  · next heq => exact absurd (List.cons.inj heq).1 hopen
  · next heq => exact absurd (List.cons.inj heq).1 hclose
  · next heq => exact absurd (hpair heq) (by decide)
  · next heq => exact absurd (hpair heq) (by decide)
  · next heq => exact absurd (hpair heq) (by decide)
  · cases readClassRange verbose (c :: d :: cs) <;> rfl

end Items

theorem readClassRange_singleton (c : Char) : readClassRange verbose [c] = none := by
  by_cases hbackslash : c = '\\'
  · subst hbackslash
    rfl
  · simp [readClassRange, readClassItem]

theorem readClassItems_append {n m : Nat} (hle : n ≤ m) {stack : List ClassFrame}
    {items : List ClassExpr} {t t' rest : List Char} {negated : Bool} {body : ClassExpr}
    (h : readClassItems verbose n stack items t = some (negated, body, rest)) {s : List Char}
    (ht : Extends verbose (')' :: s) t t') :
    readClassItems verbose m stack items t' = some (negated, body, rest ++ ')' :: s) := by
  induction n generalizing m stack items t t' with
  | zero => simp [readClassItems] at h
  | succ n ih =>
      obtain ⟨m, rfl⟩ : ∃ k, m = k + 1 := ⟨m - 1, by omega⟩
      have hle : n ≤ m := Nat.le_of_succ_le_succ hle
      cases hskip : skipBlanks verbose t with
      | nil => simp [readClassItems, hskip] at h
      | cons c cs =>
          have hskip' := ht c cs hskip
          by_cases hopen : c = '['
          · subst hopen
            simp only [readClassItems, hskip] at h
            simp only [readClassItems, hskip']
            cases hascii : readAsciiClass cs with
            | some p =>
                obtain ⟨item, inner⟩ := p
                simp only [hascii] at h
                simp only [readAsciiClass_append hascii]
                exact ih hle h (.append inner _)
            | none =>
                simp only [hascii] at h
                simp only [readAsciiClass_eq_none hascii]
                cases hopening : readClassOpening verbose cs with
                | none => simp [hopening] at h
                | some p =>
                    obtain ⟨negated', inner, rest'⟩ := p
                    simp only [hopening] at h
                    simp only [readClassOpening_append hopening]
                    exact ih hle h (.append rest' _)
          by_cases hclose : c = ']'
          · subst hclose
            simp only [readClassItems, hskip] at h
            simp only [readClassItems, hskip']
            split at h
            · cases h
              rfl
            · exact ih hle h (.append cs _)
            · cases h
          rcases cs with _ | ⟨d, ds⟩
          · simp [readClassItems, hskip, hopen, hclose, readClassRange_singleton] at h
          rw [List.cons_append] at hskip'
          cases hop : operation? c d with
          | some kind =>
              rw [readClassItems_operation hskip hop] at h
              rw [readClassItems_operation hskip' hop]
              exact ih hle h (.append ds _)
          | none =>
              rw [readClassItems_range hskip hop hopen hclose] at h
              rw [readClassItems_range hskip' hop hopen hclose]
              obtain ⟨⟨item, inner⟩, hrange, h⟩ := Option.bind_eq_some_iff.1 h
              have hne : skipBlanks verbose inner ≠ [] := fun hnil => by
                cases n <;> simp [readClassItems, hnil] at h
              obtain ⟨inner', hrange', hinner⟩ := readClassRange_goes_on hrange hne s
              rw [List.cons_append, List.cons_append] at hrange'
              rw [hrange']
              exact ih hle h hinner

theorem readClass_append {t rest : List Char} {negated : Bool} {body : ClassExpr}
    (h : readClass verbose t = some (negated, body, rest)) (s : List Char) :
    readClass verbose (t ++ ')' :: s) = some (negated, body, rest ++ ')' :: s) := by
  simp only [readClass, Option.bind_eq_bind, Option.bind_eq_some_iff] at h
  obtain ⟨⟨outer, items, inner⟩, hopening, h⟩ := h
  simp only [readClass, readClassOpening_append hopening, Option.bind_eq_bind, Option.bind_some]
  exact readClassItems_append (by simp) h (.append inner _)

end Tessera.Pattern
