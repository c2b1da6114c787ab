/-
**Excerpts within a limit.**

A text that is too long is cut, and the mark of the cut takes the place of a character.  So what is left
has as many characters as the limit says, except for the limit zero, which leaves no room for the mark:
then the mark stands alone, and is one character too many.

The places where texts are quoted have limits of their own, and none of them is zero.  Line breaks are
spelled out after the cut, so a line break that is quoted takes one character more than the limit
counts.

Main definitions:

* `Tessera.Abridges` — a text within a limit: the text itself, or its beginning with the mark of a cut.

Main results:

* `Tessera.length_truncate_le_iff` — what is left is within the limit unless nothing but the mark is;
* `Tessera.truncate_truncate` — a text that was cut is not cut again;
* `Tessera.truncate_within` — **cut texts, and the excerpts in messages, drawings, outlines and traces,
  are within their limits**.
-/

import Tessera.Proofs.Text.Lines
import Tessera.Rejection.Drawing
import Tessera.Trace

set_option autoImplicit false

namespace Tessera

variable {text : Text} {limit : Nat}

/-! ### Cuts -/

theorem truncate_of_le (h : text.length ≤ limit) : truncate text limit = text := if_pos h

theorem truncate_of_lt (h : limit < text.length) :
    truncate text limit = text.take (limit - 1) ++ [ellipsis] := if_neg (Nat.not_le.2 h)

/-- A text that is too long is cut to the limit, but at least the mark is left. -/
theorem length_truncate_of_lt (h : limit < text.length) :
    (truncate text limit).length = max limit 1 := by
  rw [truncate_of_lt h, List.length_append, List.length_take, List.length_singleton]
  omega

/-- **A cut text is within the limit** unless there is a text and no room for it. -/
theorem length_truncate_le_iff : (truncate text limit).length ≤ limit ↔ limit ≠ 0 ∨ text = [] := by
  rcases Nat.lt_or_ge limit text.length with h | h
  · have hne : text ≠ [] := List.ne_nil_of_length_pos (Nat.zero_lt_of_lt h)
    rw [length_truncate_of_lt h]
    simp only [hne, or_false]
    omega
  · rw [truncate_of_le h]
    refine iff_of_true h ?_
    by_cases hlimit : limit = 0
    · exact .inr (List.length_eq_zero_iff.1 (by omega))
    · exact .inl hlimit

/-- What is cut away is not empty. -/
theorem exists_cut (h : limit < text.length) :
    ∃ p, p <+: text ∧ p ≠ text ∧ truncate text limit = p ++ [ellipsis] := by
  refine ⟨text.take (limit - 1), List.take_prefix _ text, fun heq => ?_, truncate_of_lt h⟩
  have hlength := congrArg List.length heq
  rw [List.length_take] at hlength
  omega

/-- **A text that was cut is not cut again.** -/
theorem truncate_truncate (text : Text) (limit : Nat) :
    truncate (truncate text limit) limit = truncate text limit := by
  rcases Nat.lt_or_ge limit text.length with h | h
  · by_cases hlimit : limit = 0
    · -- the mark alone is cut and replaced by itself
      subst hlimit
      rw [truncate_of_lt h]
      rfl
    · exact truncate_of_le (length_truncate_le_iff.2 (.inl hlimit))
  · rw [truncate_of_le h, truncate_of_le h]

/-! ### Excerpts -/

/-- A text within a limit: the text itself or, when it is too long, some of its beginning with the mark
of a cut. -/
structure Abridges (text : Text) (limit : Nat) (e : Text) : Prop where
  fits : e.length ≤ limit
  whole : text.length ≤ limit → e = text
  cut : limit < text.length → ∃ p, p <+: text ∧ p ≠ text ∧ e = p ++ [ellipsis]

theorem abridges_truncate (text : Text) (h : 0 < limit) :
    Abridges text limit (truncate text limit) :=
  ⟨length_truncate_le_iff.2 (.inl (Nat.ne_of_gt h)), truncate_of_le, exists_cut⟩

/-- Every line break that is spelled out takes one character more. -/
theorem length_escapeBreaks (text : Text) :
    (escapeBreaks text).length = text.length + (breaks text).length := by
  have hcons : ∀ (c : Char) (cs : Text),
      (breaks (c :: cs)).length = (breaks [c]).length + (breaks cs).length := by
    intro c cs
    rw [breaks_cons, List.length_append]
  fun_induction escapeBreaks text with
  | case1 => rfl
  | case2 cs ih =>
      have hbreak : (breaks ['\n']).length = 1 := rfl
      rw [hcons, hbreak, List.length_cons, List.length_cons, List.length_cons, ih]
      omega
  | case3 cs ih =>
      have hbreak : (breaks ['\r']).length = 1 := rfl
      rw [hcons, hbreak, List.length_cons, List.length_cons, List.length_cons, ih]
      omega
  | case4 c cs hfeed hreturn ih =>
      have hnone : breaks [c] = [] := breaks_eq_nil_iff.2 (by simp_all [isBreak])
      rw [hcons, hnone, List.length_cons, List.length_cons, List.length_nil, ih]
      omega

/-- A message quotes the text, and the pattern if there is one, within limits. -/
theorem Rejection.exists_message_eq (r : Rejection) :
    ∃ expected e, Abridges r.pointedAt excerptLimit e ∧
      r.message = r.headline ++ " at " ++ r.location.display ++ expected ++ ": \"" ++
        String.ofList (escapeBreaks e) ++ "\"" ∧
      (r.regex = none → expected = "") ∧
      (∀ regex, r.regex = some regex → ∃ e, Abridges regex regexLimit e ∧
        expected = ", expected /" ++ String.ofList (escapeBreaks e) ++ "/") := by
  have hexcerpt : Abridges r.pointedAt excerptLimit (truncate r.pointedAt excerptLimit) :=
    abridges_truncate _ (by decide)
  cases hregex : r.regex with
  | none =>
      refine ⟨"", _, hexcerpt, by rw [message, hregex]; rfl, fun _ => rfl, fun _ h => by cases h⟩
  | some regex =>
      refine ⟨_, _, hexcerpt, by rw [message, hregex]; rfl, fun h => (by cases h), fun _ h => ?_⟩
      cases h
      exact ⟨_, abridges_truncate regex (by decide), rfl⟩

/-- **Cut texts are within their limits.**  A text that is cut to a limit has at most that many
characters, unless it is not empty and the limit is zero, which leaves the mark alone; a text within the
limit stays as it is, of a longer one a part at the beginning is left, with the mark; and a second cut
changes nothing.  So the texts that are quoted in messages, beside drawings, in outlines and in traces
are within the limits of these places, with one character more for each line break where line breaks are
spelled out. -/
theorem truncate_within (text : Text) (limit : Nat) :
    (((truncate text limit).length ≤ limit ↔ limit ≠ 0 ∨ text = []) ∧
        (text.length ≤ limit → truncate text limit = text) ∧
        (limit < text.length →
          ∃ p, p <+: text ∧ p ≠ text ∧ truncate text limit = p ++ [ellipsis]) ∧
        truncate (truncate text limit) limit = truncate text limit) ∧
      (∀ r : Rejection, ∃ expected e, Abridges r.pointedAt Rejection.excerptLimit e ∧
        r.message = r.headline ++ " at " ++ r.location.display ++ expected ++ ": \"" ++
          String.ofList (escapeBreaks e) ++ "\"" ∧
        (r.regex = none → expected = "") ∧
        (∀ regex, r.regex = some regex → ∃ e, Abridges regex Rejection.regexLimit e ∧
          expected = ", expected /" ++ String.ofList (escapeBreaks e) ++ "/")) ∧
      (∀ (r : Rejection) (regex : Text), r.regex = some regex →
        ∃ e, Abridges regex Rejection.regexLimit e ∧
          r.label = ("expected /".toList ++ e ++ ['/']).flatMap shownChar) ∧
      (∀ (n : Node) (content : Text), n.content = some content →
        ∃ e, Abridges content Tree.outlineLimit e ∧
          Tree.contentText n = " " ++ String.ofList (quote e)) ∧
      (∀ (s : TraceStyle) (text : Text), ∃ e, Abridges text TraceStyle.textLimit e ∧
        s.text text = s.palette.paint .content (String.ofList (quote (escapeBreaks e)))) ∧
      (∀ e : Text, (escapeBreaks e).length = e.length + (breaks e).length) := by
  refine ⟨⟨length_truncate_le_iff, truncate_of_le, exists_cut, truncate_truncate text limit⟩,
    Rejection.exists_message_eq, fun r regex h => ?_, fun n content h => ?_, fun s text => ?_,
    length_escapeBreaks⟩
  · exact ⟨_, abridges_truncate regex (by decide), by rw [Rejection.label, h]⟩
  · exact ⟨_, abridges_truncate content (by decide), by rw [Tree.contentText, h]⟩
  · exact ⟨_, abridges_truncate text (by decide), rfl⟩

/-- A word in the place of a letter. -/
def wordRejection : Rejection := ⟨0, none, some ['a'], "hello".toList, 0, 5, .mismatch⟩

/-- A leaf that holds a word. -/
def wordNode : Node := ⟨0, 0, some "hello".toList, none, .leaf, []⟩

/-- Two words are cut to six characters, and one word is left alone; it is quoted as a whole. -/
theorem truncate_within_words :
    truncate "hello world".toList 6 = "hello…".toList ∧
      (∃ p, p <+: "hello world".toList ∧ p ≠ "hello world".toList ∧
        truncate "hello world".toList 6 = p ++ [ellipsis]) ∧
      truncate "hello".toList 5 = "hello".toList ∧
      (∃ e e', Abridges "hello".toList Rejection.excerptLimit e ∧
        Abridges ['a'] Rejection.regexLimit e' ∧
        wordRejection.message = "content does not match #0 at 1:1" ++
          (", expected /" ++ String.ofList (escapeBreaks e') ++ "/") ++ ": \"" ++
          String.ofList (escapeBreaks e) ++ "\"") ∧
      (∃ e, Abridges ['a'] Rejection.regexLimit e ∧
        wordRejection.label = ("expected /".toList ++ e ++ ['/']).flatMap shownChar) ∧
      (∃ e, Abridges "hello".toList Tree.outlineLimit e ∧
        Tree.contentText wordNode = " " ++ String.ofList (quote e)) := by
  obtain ⟨⟨-, -, hcut, -⟩, hmessage, hlabel, hcontent, -, -⟩ :=
    truncate_within "hello world".toList 6
  obtain ⟨⟨-, hwhole, -⟩, -⟩ := truncate_within "hello".toList 5
  refine ⟨by decide, hcut (by decide), hwhole (by decide), ?_, hlabel wordRejection _ rfl,
    hcontent wordNode _ rfl⟩
  obtain ⟨expected, e, he, hparts, -, hexpected⟩ := hmessage wordRejection
  obtain ⟨e', he', rfl⟩ := hexpected _ rfl
  exact ⟨e, e', he, he', hparts⟩

/-- There is no room for the mark within the limit zero, and it is put down all the same. -/
theorem truncate_to_mark :
    truncate ['a'] 0 = ['…'] ∧ ¬ (truncate ['a'] 0).length ≤ 0 := by
  decide

end Tessera
