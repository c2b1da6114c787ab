/-
**Templates written down and read again.**

The pattern of a template is read again as the expression that the template stands for, because every
part is written as a group of its own.  What this expression matches follows from what the expressions
of the parts match.

Main definitions:

* `Tessera.Template.regex` — the expression that a template stands for.

Main results:

* `Tessera.Template.written_regex` — **a template that is written down is read as its expression**;
* `Tessera.Template.matches_regex` — **the expression of a template matches what the template does**.
-/

import Mathlib.Data.List.Permutation
import Tessera.Proofs.Grammar.Engines
import Tessera.Proofs.Pattern.Written

set_option autoImplicit false

namespace Tessera

namespace Template

open Pattern

/-! ### The expression of a template -/

mutual

/-- The expression that a template stands for. -/
def regex : Template → Regex
  | .anything => .repeated (.set CodePointSet.all) 0 none
  | .literal text => Regex.seqs (text.map fun c => .set (CodePointSet.single c.toNat))
  | .pattern source => (Regex.ofText? source).getD .never
  | .empty => .empty
  | .sequence items => Regex.seqs (regexes items)
  | .choice alternatives => Regex.alts (regexes alternatives)
  | .optional item _ => item.regex.repetition 0 (some 1)
  | .repeated item min max _ => item.regex.repetition min max
  | .separated item separator min max _ =>
      let rest := (Regex.seqs [separator.regex, item.regex]).repetition (min - 1) (max.map (· - 1))
      let body := Regex.seqs [item.regex, rest]
      if 0 < min then body else body.repetition 0 (some 1)

/-- The expressions of several templates. -/
def regexes : List Template → List Regex
  | [] => []
  | t :: ts => t.regex :: regexes ts

end

/-- The pattern can be read on its own and in a group. -/
def ReadsAlone (source : Text) : Prop :=
  (Regex.ofText? source).isSome ∧ (Ast.parse? (wrapWhole source)).isSome

/-- The pattern has no condition on a position. -/
def FreeOfLooks (source : Text) : Prop := ∀ r, Regex.ofText? source = some r → r.LookFree

theorem regexes_eq (ts : List Template) : regexes ts = ts.map regex := by
  induction ts with
  | nil => rfl
  | cons t ts ih => rw [regexes, ih, List.map_cons]

/-! ### Reading -/

variable {ts : List Template} {rs : List Regex}

theorem written_literal (text : Text) :
    Written (toText (.literal text)) (regex (.literal text)) := by
  have hpieces : List.Forall₂ WrittenPiece (text.map fun c => if isMeta c then ['\\', c] else [c])
      (text.map fun c => .set (CodePointSet.single c.toNat)) := by
    induction text with
    | nil => exact .nil
    | cons c cs ih => exact .cons (writtenPiece_char c) ih
  rw [toText, regex, escape, List.flatMap_def]
  exact written_row hpieces

theorem written_empty : Written (toText .empty) .empty := by
  have hnil : List.Forall₂ WrittenPiece [] [] := .nil
  exact written_row hnil

/-- A pattern is read as it is on its own. -/
theorem written_pattern {source : Text} (h : ReadsAlone source) :
    Written (toText (.pattern source)) (regex (.pattern source)) := by
  obtain ⟨r, hr⟩ := Option.isSome_iff_exists.1 h.1
  have hregex : regex (.pattern source) = r := by rw [regex, hr, Option.getD_some]
  rw [hregex]
  simp only [Regex.ofText?, Option.bind_eq_bind, Option.bind_eq_some_iff] at hr
  obtain ⟨a, hparse, ⟨r', m⟩, hread, heq⟩ := hr
  cases heq
  have hdenotes : a.Denotes r' := by
    intro r₁ m₁ hread₁
    cases hread.symm.trans hread₁
    rfl
  rintro stack names s b (_ | ⟨stack, names, s⟩) hrun
  · rw [List.append_nil] at hrun
    obtain rfl := hrun.unique (runs_of_parse? hparse)
    refine ⟨⟨[], [b], false⟩, [], ?_, hdenotes⟩
    exact (Runs.nil_iff (r := ⟨⟨[], [b], false⟩, [], []⟩) rfl).2 rfl
  · obtain ⟨l, names', htree, hclose⟩ := groupable_of_parse? hparse h.2 s stack names b hrun
    exact ⟨l, names', hclose, htree ▸ hdenotes⟩

theorem joined_eq (ts : List Template) :
    joined ts = (ts.map fun t => group t.toText).flatten := by
  induction ts with
  | nil => rfl
  | cons t ts ih => rw [joined, ih, List.map_cons, List.flatten_cons]

/-- A sequence is read as its items one after the other. -/
theorem written_sequence (h : List.Forall₂ (fun t r => Written (toText t) r) ts rs) :
    Written (toText (.sequence ts)) (Regex.seqs rs) := by
  rw [toText, joined_eq]
  refine written_row ?_
  induction h with
  | nil => exact .nil
  | cons ht _ ih => exact .cons ht.group ih

theorem wildcardText_eq : wildcardText = ['(', '?', 's', ':', '.', ')', '*'] := rfl

/-- Every character is in the set of all. -/
theorem contains_all (c : Char) : CodePointSet.all.contains c.toNat = true := by
  have hle : c.toNat ≤ maxCodePoint := by
    have hvalid : c.toNat < 0xD800 ∨ 0xDFFF < c.toNat ∧ c.toNat < 0x110000 := c.valid
    unfold maxCodePoint
    omega
  simpa [CodePointSet.contains, CodePointSet.all] using hle

/-- The wildcard is read as any number of any characters. -/
theorem written_anything : Written (toText .anything) (regex .anything) := by
  have hpiece : Ast.Piece (.repetition (.group [.flag .dotMatchesNewLine] .dot) 0 none)
      (regex .anything) := by
    intro r m hr
    cases hr
    exact ⟨rfl, rfl⟩
  rw [toText, wildcardText_eq]
  refine WrittenPiece.written ⟨fun s _ => by simp [NoQuestion], ?_⟩
  intro l stack names s b hl hs hrun
  refine ⟨_, names, ?_, hpiece⟩
  have hopen : Runs ⟨.start false, ⟨l, [.flag .dotMatchesNewLine]⟩ :: stack, names⟩
      ('.' :: ')' :: '*' :: s) b := by
    refine (Runs.step_iff (r := ⟨l, stack, names⟩) (by rw [hl]; rfl) ?_).1 hrun
    simp [Reading.step, Reading.openGroup, readOpening, flaggedOpening, skipBlanks, hl,
      readFlags, flag?, flagState]
  have hdot : Runs ⟨(Level.start false).push .dot, ⟨l, [.flag .dotMatchesNewLine]⟩ :: stack, names⟩
      (')' :: '*' :: s) b :=
    (Runs.step_iff (r := ⟨.start false, _, names⟩) rfl rfl).1 hopen
  have hcount : Runs ⟨l.push (.group [.flag .dotMatchesNewLine] .dot), stack, names⟩
      (countText 0 none ++ (lazyMark false ++ s)) b := runs_close.1 hdot
  exact runs_count hl hs hcount

theorem nothingText_eq : nothingText = ['[', '^', '\\', 's', '\\', 'S', ']'] := rfl

/-- The pattern that matches nothing is read as the empty set of characters. -/
theorem written_nothing : Written nothingText .never := by
  let body : ClassExpr := .union [.shorthand false .space, .shorthand true .space]
  have hread : readClass false ['^', '\\', 's', '\\', 'S', ']'] = some (true, body, []) := rfl
  intro stack names s b hs hrun
  have hread' : readClass false (['^', '\\', 's', '\\', 'S', ']'] ++ s) = some (true, body, s) := by
    cases hs with
    | text => rw [List.append_nil, hread]
    | group stack names s => rw [readClass_append hread, List.nil_append]
  refine ⟨(Level.start false).push (.bracketed true body), names, ?_, ?_⟩
  · rw [nothingText_eq] at hrun
    have hrun : Runs ⟨.start false, stack, names⟩
        ('[' :: (['^', '\\', 's', '\\', 'S', ']'] ++ s)) b := hrun
    refine (Runs.step_iff (r := ⟨.start false, stack, names⟩) rfl ?_).1 hrun
    simp only [Reading.step, Level.start, hread']
    rfl
  · -- every character is a blank or not, so none is left
    have hset : Ast.regex? Mode.start (.bracketed true body) = some (.never, Mode.start) := by cbv
    intro r m hr
    cases hset.symm.trans hr
    rfl

/-- Each alternative after a bar is read as an item of its own. -/
theorem runs_barred (h : List.Forall₂ (fun t r => Written (toText t) r) ts rs) {done : List Ast}
    {a : Ast} {stack : List OpenGroup} {names : List String} {s : List Char} {b : Ast}
    (hrun : Runs ⟨⟨done, [a], false⟩, stack, names⟩ (barred ts ++ s) b) :
    ∃ done' a' as names', Runs ⟨⟨done', [a'], false⟩, stack, names'⟩ s b ∧
      (a' :: done').reverse = (a :: done).reverse ++ as ∧ List.Forall₂ Ast.Piece as rs := by
  induction h generalizing done a names with
  | nil => exact ⟨done, a, [], names, hrun, by simp, .nil⟩
  | @cons t r ts rs ht _ ih =>
      rw [barred, List.cons_append, List.cons_append, List.append_assoc] at hrun
      have hbranch : Runs ⟨⟨a :: done, [], false⟩, stack, names⟩
          (group t.toText ++ (barred ts ++ s)) b :=
        (Runs.step_iff (r := ⟨⟨done, [a], false⟩, stack, names⟩) rfl rfl).1 hrun
      obtain ⟨a₁, names₁, hrun₁, hdenotes⟩ := ht.runs_group rfl hbranch
      obtain ⟨done', a', as, names', hrun', hreverse, has⟩ := ih hrun₁
      refine ⟨done', a', .group [] a₁ :: as, names', hrun', ?_, .cons hdenotes.group has⟩
      rw [hreverse]
      simp

/-- A choice is read as its alternatives. -/
theorem written_choice (h : List.Forall₂ (fun t r => Written (toText t) r) ts rs) :
    Written (toText (.choice ts)) (Regex.alts rs) := by
  cases h with
  | nil =>
      rw [toText]
      exact written_nothing
  | @cons t r ts rs ht hts =>
      rw [toText]
      intro stack names s b hs hrun
      rw [List.append_assoc] at hrun
      obtain ⟨a, names₁, hrun₁, hdenotes⟩ := ht.runs_group rfl hrun
      obtain ⟨done, a', as, names', hrun', hreverse, has⟩ := runs_barred hts hrun₁
      refine ⟨⟨done, [a'], false⟩, names', hrun', ?_⟩
      have hpieces : List.Forall₂ Ast.Piece (a' :: done).reverse (r :: rs) := by
        rw [hreverse]
        exact .cons hdenotes.group has
      cases done with
      | nil =>
          cases hpieces with
          | cons hpiece hnil =>
              cases hnil
              exact hpiece.denotes
      | cons d ds =>
          have htree : Level.tree ⟨d :: ds, [a'], false⟩ =
              .alternation (a' :: d :: ds).reverse := rfl
          rw [htree]
          exact Ast.denotes_alternation hpieces

/-- Items with separators between them are read as one item, and then separators and items. -/
theorem written_separated {item separator : Template} (hitem : Written item.toText item.regex)
    (hseparator : Written separator.toText separator.regex) (min : Nat) (max : Option Nat)
    (lazy : Bool) : Written (toText (.separated item separator min max lazy))
      (regex (.separated item separator min max lazy)) := by
  have hpair : Written (group separator.toText ++ group item.toText)
      (Regex.seqs [separator.regex, item.regex]) := by
    simpa using written_row (.cons hseparator.group (.cons hitem.group .nil))
  have hbody := written_row
    (.cons hitem.group (.cons (hpair.repeated (min - 1) (max.map (· - 1)) lazy) .nil))
  rw [List.flatten_cons, List.flatten_cons, List.flatten_nil, List.append_nil] at hbody
  rw [toText, separatedText, regex]
  split
  · exact hbody
  · exact (hbody.repeated 0 (some 1) lazy).written

mutual

/-- **A template that is written down is read as its expression.** -/
theorem written_regex : ∀ t : Template, t.Wellformed ReadsAlone → Written t.toText t.regex
  | .anything, _ => written_anything
  | .literal text, _ => written_literal text
  | .pattern _, h => written_pattern h
  | .empty, _ => written_empty
  | .sequence items, h => by
      rw [regex]
      exact written_sequence (written_regexes items h)
  | .choice alternatives, h => by
      rw [regex]
      exact written_choice (written_regexes alternatives h)
  | .optional item lazy, h => by
      rw [toText, regex]
      exact ((written_regex item h).repeated 0 (some 1) lazy).written
  | .repeated item min max lazy, h => by
      rw [toText, regex]
      exact ((written_regex item h.2).repeated min max lazy).written
  | .separated item separator min max lazy, h =>
      written_separated (written_regex item h.2.1) (written_regex separator h.2.2) min max lazy

theorem written_regexes : ∀ ts : List Template, AllWellformed ReadsAlone ts →
    List.Forall₂ (fun t r => Written (toText t) r) ts (regexes ts)
  | [], _ => .nil
  | t :: ts, h => .cons (written_regex t h.1) (written_regexes ts h.2)

end

/-! ### Matching -/

mutual

/-- Templates of patterns without conditions on positions have none either. -/
theorem regex_lookFree : ∀ t : Template, t.Wellformed FreeOfLooks → t.regex.LookFree
  | .anything, _ => trivial
  | .literal text, _ => by
      rw [regex]
      refine Regex.seqs_lookFree fun r hr => ?_
      obtain ⟨c, -, rfl⟩ := List.mem_map.1 hr
      trivial
  | .pattern source, h => by
      rw [regex]
      cases hr : Regex.ofText? source with
      | none => trivial
      | some r => exact h r hr
  | .empty, _ => trivial
  | .sequence items, h => by
      rw [regex]
      exact Regex.seqs_lookFree (regexes_lookFree items h)
  | .choice alternatives, h => by
      rw [regex]
      exact Regex.alts_lookFree (regexes_lookFree alternatives h)
  | .optional item _, h => by
      rw [regex]
      exact Regex.repetition_lookFree (regex_lookFree item h) 0 (some 1)
  | .repeated item min max _, h => by
      rw [regex]
      exact Regex.repetition_lookFree (regex_lookFree item h.2) min max
  | .separated item separator min max _, h => by
      have hitem := regex_lookFree item h.2.1
      have hseparator := regex_lookFree separator h.2.2
      have hpair : (Regex.seqs [separator.regex, item.regex]).LookFree :=
        Regex.seqs_lookFree (by simp [hitem, hseparator])
      have hrest := Regex.repetition_lookFree hpair (min - 1) (max.map (· - 1))
      have hbody := Regex.seqs_lookFree (List.forall_mem_cons.2
        ⟨hitem, List.forall_mem_singleton.2 hrest⟩)
      rw [regex]
      split
      · exact hbody
      · exact Regex.repetition_lookFree hbody 0 (some 1)

theorem regexes_lookFree : ∀ ts : List Template, AllWellformed FreeOfLooks ts →
    ∀ r ∈ regexes ts, r.LookFree
  | [], _ => by simp [regexes]
  | t :: ts, h => List.forall_mem_cons.2 ⟨regex_lookFree t h.1, regexes_lookFree ts h.2⟩

end

variable {min : Nat} {max : Option Nat} {w : Text}

theorem anything_matches (w : Text) : (regex .anything).Matches w := by
  refine ⟨w.map fun c => [c], Nat.zero_le _, by simp, ?_, ?_⟩
  · intro u hu
    obtain ⟨c, -, rfl⟩ := List.mem_map.1 hu
    exact ⟨c, rfl, contains_all c⟩
  · rw [← List.flatMap_def]
    simp

/-- A literal matches its text. -/
theorem literal_matches {text : Text} : (regex (.literal text)).Matches w ↔ w = text := by
  rw [regex, Regex.seqs_matches_iff]
  induction text generalizing w with
  | nil => exact inRow_nil
  | cons c cs ih =>
      rw [List.map_cons, List.map_cons, inRow_cons]
      constructor
      · rintro ⟨_, v, rfl, ⟨c', rfl, hc⟩, hv⟩
        obtain rfl := ih.1 hv
        have hcode : c'.toNat = c.toNat := by
          simp [CodePointSet.single] at hc
          omega
        rw [Char.toNat_inj.1 hcode]
        rfl
      · rintro rfl
        exact ⟨[c], cs, rfl, ⟨c, rfl, by simp [CodePointSet.single]⟩, ih.2 rfl⟩

/-- One text or none. -/
theorem optional_matches {r : Regex} :
    (r.repetition 0 (some 1)).Matches w ↔ w = [] ∨ r.Matches w := by
  rw [Regex.repetition_matches_iff fun _ _ => Nat.zero_le _]
  constructor
  · rintro ⟨ws, -, hmax, hall, rfl⟩
    match ws, hmax 1 rfl, hall with
    | [], _, _ => exact .inl rfl
    | [u], _, hall => exact .inr (by simpa using hall)
  · rintro (rfl | hw)
    · exact ⟨[], by simp⟩
    · exact ⟨[w], by simp [hw]⟩

/-- Items with separators between them: nothing, when that is admitted, or one item and then
separators and items. -/
theorem separated_matches {item separator : Template} {lazy : Bool}
    (hle : ∀ m, max = some m → min ≤ m) :
    (regex (.separated item separator min max lazy)).Matches w ↔ (min = 0 ∧ w = []) ∨
      InRow [item.regex.Matches, Repeated (InRow [separator.regex.Matches, item.regex.Matches])
        (min - 1) (max.map (· - 1))] w := by
  have hrest : ∀ u, ((Regex.seqs [separator.regex, item.regex]).repetition (min - 1)
      (max.map (· - 1))).Matches u ↔ Repeated (InRow [separator.regex.Matches, item.regex.Matches])
        (min - 1) (max.map (· - 1)) u := by
    intro u
    rw [Regex.repetition_matches_iff fun m hm => ?_]
    · have hpair : (Regex.seqs [separator.regex, item.regex]).Matches =
          InRow [separator.regex.Matches, item.regex.Matches] := by
        funext u
        exact propext Regex.seqs_matches_iff
      rw [hpair]
    · obtain ⟨m', hm', rfl⟩ := Option.map_eq_some_iff.1 hm
      exact Nat.sub_le_sub_right (hle m' hm') 1
  have hbody : (Regex.seqs [item.regex, (Regex.seqs [separator.regex, item.regex]).repetition
      (min - 1) (max.map (· - 1))]).Matches w ↔ InRow [item.regex.Matches,
        Repeated (InRow [separator.regex.Matches, item.regex.Matches]) (min - 1)
          (max.map (· - 1))] w := by
    rw [Regex.seqs_matches_iff, List.map_cons, List.map_cons, List.map_nil, inRow_pair, inRow_pair]
    simp only [hrest]
  rw [regex]
  split
  · next hpos =>
    rw [hbody]
    have hne : min ≠ 0 := by omega
    simp [hne]
  · next hzero =>
    rw [optional_matches, hbody]
    have hzero : min = 0 := by omega
    simp only [hzero, true_and]

/-- The expression of a pattern matches what the engine accepts. -/
def Agrees (e : Engine) (source : Text) : Prop :=
  (regex (.pattern source)).Matches = e.Accepts source

variable {e : Engine}

mutual

/-- **The expression of a template matches what the template does**, when the expressions of its
patterns match what the engine accepts. -/
theorem matches_regex : ∀ t : Template, t.Wellformed (Agrees e) → t.regex.Matches = t.Matches e
  | .anything, _ => funext fun w => propext (iff_of_true (anything_matches w) trivial)
  | .literal _, _ => funext fun _ => propext literal_matches
  | .pattern _, h => h
  | .empty, _ => rfl
  | .sequence items, h => by
      funext w
      rw [regex, Regex.seqs_matches_iff, matches_regexes items h, Matches]
  | .choice alternatives, h => by
      funext w
      rw [regex, Regex.alts_matches_iff, Matches, ← matches_regexes alternatives h]
      simp only [List.mem_map, exists_exists_and_eq_and]
  | .optional item _, h => by
      funext w
      rw [regex, optional_matches, matches_regex item h, Matches]
  | .repeated item min max _, h => by
      funext w
      rw [regex, Regex.repetition_matches_iff h.1, matches_regex item h.2, Matches]
  | .separated item separator min max _, h => by
      funext w
      rw [separated_matches h.1, matches_regex item h.2.1, matches_regex separator h.2.2, Matches]

theorem matches_regexes : ∀ ts : List Template, AllWellformed (Agrees e) ts →
    (regexes ts).map Regex.Matches = languages e ts
  | [], _ => rfl
  | t :: ts, h => by
      rw [regexes, List.map_cons, matches_regex t h.1, matches_regexes ts h.2, languages]

end

end Template

end Tessera
