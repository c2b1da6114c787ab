/-
**What is relied on of an engine.**

Of the patterns that it is given an engine says itself which texts they match as a whole.  A template is
put together from such patterns, and from literal texts, in the ways in which the rules of a grammar
are; so what the engine says of the patterns gives a template a language of its own.

The laws of an engine say that a template that is written down is understood in this way: when it must
match a whole text, and in the scans of a text in both directions.  They speak only of patterns that can
be read and compile by themselves and have no conditions on positions, and only of what compiles and of
scans that do not give up.  Nothing is asked of what a scan shows inside a character.

Main definitions:

* `Tessera.Engine.Accepts` — the texts that a pattern matches as a whole;
* `Tessera.Engine.Plain` — the patterns that the laws speak of;
* `Tessera.Template.Matches` — the texts that a template matches;
* `Tessera.Engine.Lawful` — **what is relied on of an engine**;
* `Tessera.Matcher.Admits` — what a matcher finds of a language.

Main results:

* `Tessera.Engine.Lawful.admits` — **the matcher of a template rules out nothing that it matches**.
-/

import Tessera.Grammar.Basic
import Tessera.Proofs.Pattern.Positions
import Tessera.Proofs.Text.Rows

set_option autoImplicit false

namespace Tessera

/-! ### Patterns -/

namespace Engine

/-- The pattern compiles and matches all of the text. -/
def Accepts (e : Engine) (pattern w : Text) : Prop :=
  ∃ isMatch, e.whole? pattern = some isMatch ∧ isMatch w = true

/-- The pattern can be read, it compiles, and it has no condition on a position. -/
structure Plain (e : Engine) (pattern : Text) : Prop where
  reads : e.reads pattern = true
  compiles : (e.whole? pattern).isSome
  lookFree : e.looks pattern = false

end Engine

/-! ### Templates -/

namespace Template

mutual

/-- All patterns in a template have a property, and its bounds are in order. -/
def Wellformed (P : Text → Prop) : Template → Prop
  | .pattern source => P source
  | .sequence items => AllWellformed P items
  | .choice alternatives => AllWellformed P alternatives
  | .optional item _ => item.Wellformed P
  | .repeated item min max _ => (∀ m, max = some m → min ≤ m) ∧ item.Wellformed P
  | .separated item separator min max _ =>
      (∀ m, max = some m → min ≤ m) ∧ item.Wellformed P ∧ separator.Wellformed P
  | .anything => True
  | .literal _ => True
  | .empty => True

/-- All patterns in several templates have a property, and their bounds are in order. -/
def AllWellformed (P : Text → Prop) : List Template → Prop
  | [] => True
  | t :: ts => t.Wellformed P ∧ AllWellformed P ts

end

theorem allWellformed_iff {P : Text → Prop} {ts : List Template} :
    AllWellformed P ts ↔ ∀ t ∈ ts, t.Wellformed P := by
  induction ts with
  | nil => simp [AllWellformed]
  | cons t ts ih => simp [AllWellformed, ih]

mutual

theorem Wellformed.mono {P Q : Text → Prop} (hPQ : ∀ source, P source → Q source) :
    ∀ t : Template, t.Wellformed P → t.Wellformed Q
  | .pattern source, h => hPQ source h
  | .sequence items, h => AllWellformed.mono hPQ items h
  | .choice alternatives, h => AllWellformed.mono hPQ alternatives h
  | .optional item _, h => Wellformed.mono hPQ item h
  | .repeated item _ _ _, h => ⟨h.1, Wellformed.mono hPQ item h.2⟩
  | .separated item separator _ _ _, h =>
      ⟨h.1, Wellformed.mono hPQ item h.2.1, Wellformed.mono hPQ separator h.2.2⟩
  | .anything, _ => trivial
  | .literal _, _ => trivial
  | .empty, _ => trivial

theorem AllWellformed.mono {P Q : Text → Prop} (hPQ : ∀ source, P source → Q source) :
    ∀ ts : List Template, AllWellformed P ts → AllWellformed Q ts
  | [], _ => trivial
  | t :: ts, h => ⟨Wellformed.mono hPQ t h.1, AllWellformed.mono hPQ ts h.2⟩

end

mutual

/-- The texts that a template matches, given those that the engine accepts for the patterns. -/
def Matches (e : Engine) : Template → Text → Prop
  | .anything, _ => True
  | .literal text, w => w = text
  | .pattern source, w => e.Accepts source w
  | .empty, w => w = []
  | .sequence items, w => InRow (languages e items) w
  | .choice alternatives, w => ∃ L ∈ languages e alternatives, L w
  | .optional item _, w => w = [] ∨ item.Matches e w
  | .repeated item min max _, w => Repeated (item.Matches e) min max w
  | .separated item separator min max _, w =>
      (min = 0 ∧ w = []) ∨
        InRow [item.Matches e,
          Repeated (InRow [separator.Matches e, item.Matches e]) (min - 1) (max.map (· - 1))] w

/-- The languages of several templates. -/
def languages (e : Engine) : List Template → List (Text → Prop)
  | [] => []
  | t :: ts => t.Matches e :: languages e ts

end

variable {e : Engine} {ts : List Template} {w : Text}

theorem languages_eq (ts : List Template) : languages e ts = ts.map (Matches e) := by
  induction ts with
  | nil => rfl
  | cons t ts ih => rw [languages, ih, List.map_cons]

theorem matches_sequence :
    Matches e (.sequence ts) w ↔ InRow (ts.map (Matches e)) w := by
  rw [Matches, languages_eq]

theorem matches_choice : Matches e (.choice ts) w ↔ ∃ t ∈ ts, t.Matches e w := by
  rw [Matches, languages_eq]
  simp only [List.mem_map, exists_exists_and_eq_and]

end Template

/-! ### Laws -/

/-- **What is relied on of an engine.**  A template that is written down matches what its parts give,
when it is compiled to match whole texts and in the scans that there are. -/
structure Engine.Lawful (e : Engine) : Prop where
  whole : ∀ t : Template, t.Wellformed e.Plain → ∀ isMatch, e.whole? t.toText = some isMatch →
    ∀ w, isMatch w = true ↔ t.Matches e w
  /-- A scan from the beginning shows at a boundary whether the text before it matches. -/
  forward : ∀ t : Template, t.Wellformed e.Plain → ∀ limit scan,
    e.scan? limit .forward t.toText = some scan → ∀ u v shows, scan (u ++ v) = some shows →
      (shows (byteLength u) = true ↔ t.Matches e u)
  /-- A scan from the end shows at a boundary whether the text after it matches. -/
  backward : ∀ t : Template, t.Wellformed e.Plain → ∀ limit scan,
    e.scan? limit .backward t.toText = some scan → ∀ u v shows, scan (u ++ v) = some shows →
      (shows (byteLength u) = true ↔ t.Matches e v)

/-! ### Matchers -/

/-- The matcher rules out no text, no prefix and no suffix that belongs to the language. -/
structure Matcher.Admits (m : Matcher) (L : Text → Prop) : Prop where
  whole : ∀ w, L w → m.whole w = true
  prefixEnds : ∀ u v, L u → byteLength u ∈ m.prefixEnds (u ++ v)
  suffixStarts : ∀ u v, L v → (m.suffixStarts (u ++ v)).getD (byteLength u) false = true

theorem Matcher.Admits.mono {m : Matcher} {L K : Text → Prop} (h : m.Admits L)
    (hKL : ∀ w, K w → L w) : m.Admits K where
  whole w hw := h.whole w (hKL w hw)
  prefixEnds u v hu := h.prefixEnds u v (hKL u hu)
  suffixStarts u v hv := h.suffixStarts u v (hKL v hv)

/-- A boundary is found when the part that is cut there matches and every scan shows this. -/
theorem mem_found_of_matches {exact : Option (Text → Bool)} {part : Nat → Text → Text}
    {scan : Option Scan} {u v : Text}
    (hpart : wholeMatch exact (part (byteLength u) (u ++ v)) = true)
    (hshows : ∀ s shows, scan = some s → s (u ++ v) = some shows → shows (byteLength u) = true) :
    byteLength u ∈ found exact part scan (u ++ v) := by
  refine mem_found.2 ⟨isBoundary_iff.2 ⟨u, v, rfl, rfl⟩, ?_⟩
  split
  · next shows hscan =>
    obtain ⟨s, hs, hscan⟩ := Option.bind_eq_some_iff.1 hscan
    exact hshows s shows hs hscan
  · exact hpart

namespace Engine.Lawful

variable {e : Engine} {t : Template} {w : Text}

theorem wholeMatch (he : e.Lawful) (ht : t.Wellformed e.Plain) (hw : t.Matches e w) :
    wholeMatch (e.whole? t.toText) w = true := by
  cases hwhole : e.whole? t.toText with
  | none => rfl
  | some isMatch => exact (he.whole t ht isMatch hwhole w).2 hw

/-- **The matcher of a template rules out nothing that the template matches.** -/
theorem admits (he : e.Lawful) (ht : t.Wellformed e.Plain) :
    (Matcher.ofPattern e t.toText).Admits (t.Matches e) where
  whole w hw := he.wholeMatch ht hw
  prefixEnds u v hu := by
    apply mem_found_of_matches
    · rw [takeBytes_append]
      exact he.wholeMatch ht hu
    · intro scan shows hscan hshows
      exact (he.forward t ht _ scan hscan u v shows hshows).2 hu
  suffixStarts u v hv := by
    refine (getD_flagged (by simp)).2 (mem_found_of_matches ?_ ?_)
    · rw [dropBytes_append]
      exact he.wholeMatch ht hv
    · intro scan shows hscan hshows
      exact (he.backward t ht _ scan hscan u v shows hshows).2 hv

end Engine.Lawful

end Tessera
