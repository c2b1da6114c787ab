/-
**The lines of a listing.**

A listing has an entry for each definition, in order, and a line feed after each.  Texts of literals,
separators and defaults are quoted in an entry, so they cannot break the line; the source of a pattern
and the field name of an alias stand there as they were given.  So an entry has the line breaks of that
part and no others.

Main definitions:

* `Tessera.Grammar.verbatim` — the part of an entry that stands there as it was given;
* `Tessera.Grammar.entry` — the entry of a definition;
* `Tessera.Grammar.ListedByLines` — what the lines of a listing are.

Main results:

* `Tessera.Grammar.breaks_entry` — **the line breaks of an entry are those of its verbatim part**;
* `Tessera.Grammar.length_lines_listing` — the number of lines of a listing;
* `Tessera.Grammar.lines_listing` — **a listing has the entries for its lines**, if no verbatim part
  has a line feed.
-/

import Tessera.Grammar.Listing
import Tessera.Proofs.Text.Lines

set_option autoImplicit false

namespace Tessera

/-- The bounds of a repetition and its quantifier are written on one line. -/
@[simp] theorem breaks_listed (r : Repetition) : breaks r.listed.toList = [] := by
  have hbounds : breaks r.display.toList = [] := by
    rw [Repetition.display]
    cases r.max with
    | none =>
        change breaks (toString r.min ++ "..").toList = []
        rw [breaks_after (by decide), breaks_natToString]
    | some max =>
        change breaks (toString r.min ++ "..=" ++ toString max).toList = []
        rw [breaks_after (breaks_natToString max), breaks_after (by decide), breaks_natToString]
  have hsuffix : breaks r.quantifier.suffix.toList = [] := by cases r.quantifier <;> decide
  rw [Repetition.listed, breaks_after hsuffix, hbounds]

/-- Numbers of definitions are listed on one line. -/
theorem breaks_listDefs {separator : String} (h : breaks separator.toList = []) (ds : List DefId) :
    breaks (listDefs separator ds).toList = [] := by
  rw [listDefs]
  induction ds with
  | nil => rfl
  | cons d ds ih =>
      cases ds with
      | nil => simp
      | cons e ds =>
          rw [List.map_cons, List.map_cons, String.intercalate_cons_cons, ← List.map_cons,
            breaks_after ih, breaks_after h, breaks_display]

namespace Grammar

variable {g : Grammar}

/-- The part of an entry that stands there as it was given: the source of a pattern or a field name. -/
def verbatim (g : Grammar) : Rule → Text
  | .pattern source => source
  | .alias _ (some name) => ((g.names.resolve? name).getD "").toList
  | _ => []

/-- The entry of a definition: its number and what it stands for. -/
def entry (g : Grammar) (d : DefId) : Text := (d.display ++ " = " ++ g.describe (g.rule d)).toList

/-- What a rule stands for has the line breaks of the verbatim part. -/
theorem breaks_describe (g : Grammar) (rule : Rule) :
    breaks (g.describe rule).toList = breaks (g.verbatim rule) := by
  have hquoted : ∀ text : Text, breaks (String.ofList (quote text)).toList = [] := by
    intro text
    rw [String.toList_ofList, breaks_quote]
  have hsuffix : ∀ q : Quantifier, breaks q.suffix.toList = [] := by
    intro q
    cases q <;> decide
  cases rule with
  | literal text => exact (breaks_before (by decide) _).trans (hquoted text)
  | pattern source =>
      change breaks ("pat /" ++ String.ofList source ++ "/").toList = breaks source
      rw [breaks_after (by decide), breaks_before (by decide), String.toList_ofList]
  | empty =>
      change breaks "empty".toList = []
      decide
  | sequence items =>
      change breaks ("seq(" ++ listDefs " " items ++ ")").toList = []
      rw [breaks_after (by decide), breaks_before (by decide), breaks_listDefs (by decide)]
  | choice alternatives =>
      change breaks ("choice(" ++ listDefs " | " alternatives ++ ")").toList = []
      rw [breaks_after (by decide), breaks_before (by decide), breaks_listDefs (by decide)]
  | optional item quantifier =>
      change breaks ("opt(" ++ item.display ++ ")" ++ quantifier.suffix).toList = []
      rw [breaks_after (hsuffix quantifier), breaks_after (by decide), breaks_before (by decide),
        breaks_display]
  | loop item repetition =>
      change breaks ("loop(" ++ item.display ++ ") " ++ repetition.listed).toList = []
      rw [breaks_after (breaks_listed repetition), breaks_after (by decide),
        breaks_before (by decide), breaks_display]
  | separated item separator default repetition =>
      have hbody : breaks ("sep(" ++ item.display ++ " by " ++ separator.display ++ ") " ++
          repetition.listed).toList = [] := by
        rw [breaks_after (breaks_listed repetition), breaks_after (by decide),
          breaks_after (breaks_display separator), breaks_after (by decide),
          breaks_before (by decide), breaks_display]
      cases default with
      | none => exact hbody
      | some text =>
          change breaks ("sep(" ++ item.display ++ " by " ++ separator.display ++ ") " ++
            repetition.listed ++ " default " ++ String.ofList (quote text)).toList = []
          rw [breaks_after (hquoted text), breaks_after (by decide), hbody]
  | «alias» target name =>
      cases name with
      | none =>
          change breaks ("alias(" ++ target.display ++ ")").toList = []
          rw [breaks_after (by decide), breaks_before (by decide), breaks_display]
      | some name =>
          have htarget : breaks (": " ++ target.display).toList = [] := by
            rw [breaks_before (by decide), breaks_display]
          change breaks ("field " ++ (g.names.resolve? name).getD "" ++
            (": " ++ target.display)).toList = _
          rw [breaks_after htarget, breaks_before (by decide)]
          rfl
  | forward target =>
      change breaks ("forward(" ++ target.display ++ ")").toList = []
      rw [breaks_after (by decide), breaks_before (by decide), breaks_display]
  | withDefault content target =>
      have htarget : breaks (", " ++ target.display ++ ")").toList = [] := by
        rw [breaks_after (by decide), breaks_before (by decide), breaks_display]
      change breaks ("default(" ++ String.ofList (quote content) ++
        (", " ++ target.display ++ ")")).toList = []
      rw [breaks_after htarget, breaks_before (by decide), hquoted]

/-- **The line breaks of an entry are those of its verbatim part.** -/
theorem breaks_entry (g : Grammar) (d : DefId) :
    breaks (g.entry d) = breaks (g.verbatim (g.rule d)) := by
  have hnumber : breaks (d.display ++ " = ").toList = [] := by
    rw [breaks_after (by decide), breaks_display]
  rw [entry, breaks_before hnumber, breaks_describe]

/-- A listing consists of the entries, with a line feed after each. -/
theorem toList_listing (g : Grammar) :
    g.listing.toList = terminated ((List.range g.size).map g.entry) := by
  have hline : ∀ d, (g.listingLine d).toList = g.entry d ++ ['\n'] := fun d => String.toList_append
  rw [listing, String.toList_join, terminated, List.map_map, List.flatMap_map, List.flatMap_def]
  exact congrArg List.flatten (List.map_congr_left fun d _ => hline d)

/-- A listing has a line for each definition and one more for each line feed in a verbatim part. -/
theorem length_lines_listing (g : Grammar) :
    (lines g.listing.toList).length =
      g.size + ((List.range g.size).map fun d => (g.verbatim (g.rule d)).count '\n').sum := by
  have hfeeds : ∀ d, (g.entry d).count '\n' = (g.verbatim (g.rule d)).count '\n' := by
    intro d
    rw [← count_breaks, breaks_entry, count_breaks]
  rw [toList_listing, length_lines_terminated, List.length_map, List.length_range, List.map_map]
  exact congrArg (fun f => g.size + ((List.range g.size).map f).sum) (funext hfeeds)

/-- **A listing has the entries for its lines**, if no verbatim part has a line feed. -/
theorem lines_listing (h : ∀ d < g.size, '\n' ∉ g.verbatim (g.rule d)) :
    lines g.listing.toList = (List.range g.size).map g.entry := by
  rw [toList_listing, lines_terminated]
  intro line hline
  obtain ⟨d, hd, rfl⟩ := List.mem_map.1 hline
  have hnone := List.count_eq_zero.2 (h d (List.mem_range.1 hd))
  rw [← count_breaks, ← breaks_entry, count_breaks] at hnone
  exact List.count_eq_zero.1 hnone

/-- What the lines of a listing are. -/
structure ListedByLines (g : Grammar) : Prop where
  /-- An entry begins with the number of the definition. -/
  numbered : ∀ d, (d.display ++ " = ").toList <+: g.entry d
  /-- Only the verbatim part breaks the line of an entry. -/
  breaks_eq : ∀ d, breaks (g.entry d) = breaks (g.verbatim (g.rule d))
  /-- There is a line for each definition and one more for each line feed in a verbatim part. -/
  length_eq : (lines g.listing.toList).length =
    g.size + ((List.range g.size).map fun d => (g.verbatim (g.rule d)).count '\n').sum
  /-- The lines are the entries in order, if no verbatim part has a line feed. -/
  lines_eq : (∀ d < g.size, '\n' ∉ g.verbatim (g.rule d)) →
    lines g.listing.toList = (List.range g.size).map g.entry

theorem listedByLines (g : Grammar) : g.ListedByLines where
  numbered d := by
    rw [entry, String.toList_append (s := d.display ++ " = ")]
    exact List.prefix_append _ _
  breaks_eq := g.breaks_entry
  length_eq := g.length_lines_listing
  lines_eq := lines_listing

end Grammar

end Tessera
