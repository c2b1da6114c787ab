/-
**Messages on one line.**

The message of a rejection is put together from fixed words, numbers, the pattern, an excerpt of the
text, and the field name of the definition.  In the pattern and in the excerpt line breaks are spelled
out; the field name is written as it was given.  So the line breaks of a message are those of the field
name, and a message stays on one line whatever the text, the pattern and the literals are, as long as
the field names do.

Main results:

* `Tessera.Rejection.breaks_message` — the line breaks of a message;
* `Tessera.resolve_message_breaks` — **a message has the line breaks of the field name and no others**;
* `Tessera.message_of_broken_name` — a message that takes two lines.
-/

import Tessera.Proofs.Search.Marking
import Tessera.Proofs.Text.Lines

set_option autoImplicit false

namespace Tessera

namespace Rejection

variable (r : Rejection)

/-- What a message calls the definition has the line breaks of the field name. -/
theorem breaks_subject : breaks r.subject.toList = breaks (r.name.getD "").toList := by
  rw [subject]
  cases r.name with
  | none => exact breaks_display r.definition
  | some name =>
      change breaks ("\x60" ++ name ++ "\x60").toList = breaks name.toList
      rw [breaks_after (by decide), breaks_before (by decide)]

/-- Whatever the reason is, only the definition is named in a headline. -/
theorem breaks_headline : breaks r.headline.toList = breaks (r.name.getD "").toList := by
  have hwords : ∀ words : String, breaks words.toList = [] →
      breaks (words ++ r.subject).toList = breaks (r.name.getD "").toList := by
    intro words hwords
    rw [breaks_before hwords, breaks_subject]
  rw [headline]
  cases r.reason
  case mismatch => exact hwords "content does not match " (by decide)
  case noAlternative =>
    change breaks ("no alternative of " ++ r.subject ++ " accepts the content").toList = _
    rw [breaks_after (by decide), hwords _ (by decide)]
  case trailingContent => exact hwords "unexpected content after " (by decide)
  case tooFewItems => exact hwords "too few items for " (by decide)
  case tooManyItems => exact hwords "too many items for " (by decide)

/-- What was expected stands between slashes, with its line breaks spelled out. -/
theorem breaks_expected (regex : Text) :
    breaks (", expected /" ++ String.ofList (escapeBreaks (truncate regex regexLimit)) ++
      "/").toList = [] := by
  rw [breaks_after (by decide), breaks_before (by decide), String.toList_ofList, breaks_escapeBreaks]

/-- **The line breaks of a message are those of the field name.** -/
theorem breaks_message : breaks r.message.toList = breaks (r.name.getD "").toList := by
  have hexcerpt : breaks (String.ofList r.excerpt).toList = [] := by
    rw [String.toList_ofList]
    exact breaks_escapeBreaks _
  have hparts : ∀ expected : String, breaks expected.toList = [] →
      breaks (r.headline ++ " at " ++ r.location.display ++ expected ++ ": \"" ++
        String.ofList r.excerpt ++ "\"").toList = breaks (r.name.getD "").toList := by
    intro expected hexpected
    rw [breaks_after (by decide), breaks_after hexcerpt, breaks_after (by decide),
      breaks_after hexpected, breaks_after (breaks_location _), breaks_after (by decide),
      breaks_headline]
  rw [message]
  cases r.regex with
  | none => exact hparts "" rfl
  | some regex => exact hparts _ (breaks_expected regex)

end Rejection

/-- A field name is one of the names of the grammar. -/
theorem Grammar.mem_names_of_name? {g : Grammar} {d : DefId} {name : String}
    (h : g.name? d = some name) : name ∈ g.names.names := by
  obtain ⟨_, -, hname⟩ := Option.bind_eq_some_iff.1 h
  exact Array.mem_of_getElem? hname

/-- **A message has the line breaks of the field name and no others.**  For every grammar and every text
that is rejected, whatever line breaks are in the text and in the pattern: the message has exactly the
line breaks of the field name of the definition that is reported.  So if no field name of the grammar
has a line break, every message stays on one line. -/
theorem resolve_message_breaks {g : Grammar} {d : DefId} {text : Text} {r : Rejection}
    (h : (resolve g d text).result = .error (.rejected r)) :
    breaks r.message.toList = breaks ((g.name? r.definition).getD "").toList ∧
      ((∀ name ∈ g.names.names, breaks name.toList = []) → breaks r.message.toList = []) := by
  obtain ⟨s, -, rfl⟩ := resolve_rejected h
  have hmessage := Rejection.breaks_message (Query.report ⟨g, text, false⟩ d s)
  refine ⟨hmessage, fun hnames => hmessage.trans ?_⟩
  cases hname : (Query.report ⟨g, text, false⟩ d s).name with
  | none => rfl
  | some name => exact hnames name (Grammar.mem_names_of_name? hname)

/-! ### A letter under a field name -/

/-- The letter `a`, and the same under a field name. -/
def fieldDraft (name : String) : Draft :=
  ⟨#[some (.literal ['a']), some (.alias 0 (some 0))],
    ⟨#[name], (∅ : Std.HashMap _ _).insert name 0⟩, {}, .standard⟩

/-- The grammar of the letter and its field name. -/
def fieldGrammar (name : String) : Grammar where
  rules := #[.literal ['a'], .alias 0 (some 0)]
  resolved := #[0, 0]
  names := (fieldDraft name).names
  limits := {}
  engine := .standard
  acceptors := Acceptors.ofRules .standard #[.literal ['a'], .alias 0 (some 0)] {} #[none, none]

theorem fieldDraft_build (name : String) : (fieldDraft name).build = .ok (fieldGrammar name) := by
  with_unfolding_all rfl

/-- Another letter is rejected. -/
def fieldRejection (name : String) : Rejection := ⟨1, some name, some ['a'], ['b'], 0, 1, .mismatch⟩

theorem resolve_field (name : String) :
    (resolve (fieldGrammar name) 1 ['b']).result = .error (.rejected (fieldRejection name)) := by
  obtain ⟨s, hs, hfurthest⟩ : ∃ s, Query.parse ⟨fieldGrammar name, ['b'], false⟩ 7 [] 1 0 1 .start =
      (.error .rejected, s) ∧
        s.furthest = ((SearchState.start.happen (.enter 1 0 1)).record ⟨1, 0, 1, .mismatch⟩).furthest :=
    Query.parse_rejected rfl Std.HashSet.contains_empty rfl rfl
  have hs : Query.run ⟨fieldGrammar name, ['b'], false⟩ 1 = (.error .rejected, s) := hs
  have hfurthest : s.furthest = some ⟨1, 0, 1, .mismatch⟩ := hfurthest
  have hfeasible : (fieldGrammar name).feasible 1 ['b'] = false := by with_unfolding_all rfl
  rw [resolve, hfeasible, if_neg Bool.false_ne_true, resolveFully, hs]
  simp only [Query.report, hfurthest]
  rfl

/-- The message about another letter names the field and stays on one line. -/
theorem resolve_message_breaks_field :
    (fieldDraft "x").build = .ok (fieldGrammar "x") ∧
      (resolve (fieldGrammar "x") 1 ['b']).result = .error (.rejected (fieldRejection "x")) ∧
      breaks (fieldRejection "x").message.toList = [] := by
  obtain ⟨hbreaks, -⟩ := resolve_message_breaks (resolve_field "x")
  refine ⟨fieldDraft_build "x", resolve_field "x", hbreaks.trans ?_⟩
  have hname : (fieldGrammar "x").name? 1 = some "x" := rfl
  rw [show (fieldRejection "x").definition = 1 from rfl, hname]
  decide

/-- A field name with a line feed breaks the message. -/
theorem message_of_broken_name :
    (fieldDraft "x\ny").build = .ok (fieldGrammar "x\ny") ∧
      (resolve (fieldGrammar "x\ny") 1 ['b']).result =
        .error (.rejected (fieldRejection "x\ny")) ∧
      breaks (fieldRejection "x\ny").message.toList = ['\n'] :=
  ⟨fieldDraft_build _, resolve_field _, (Rejection.breaks_message _).trans (by decide)⟩

end Tessera
