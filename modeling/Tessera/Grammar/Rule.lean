/-
**Rules.**

A definition of a grammar is a number, and its rule says what it stands for: a literal text, a
pattern, a sequence of other definitions, and so on.  Three kinds of rules only stand for another
definition: aliases, which may carry a field name, bound references, and rules with a default
content.

Main definitions:

* `Tessera.Quantifier`, `Tessera.Repetition` — how often something is repeated, and what is tried
  first;
* `Tessera.Rule` — the rules;
* `Tessera.Rule.target?` — what a rule merely stands for;
* `Tessera.Rule.references` — the definitions that a rule mentions.
-/

import Tessera.Names
import Tessera.Text.Bytes

set_option autoImplicit false

namespace Tessera

/-! ### Definitions and repetitions -/

/-- The number of a definition in its grammar. -/
abbrev DefId := Nat

/-- A definition is written as a number sign and its number. -/
def DefId.display (d : DefId) : String := s!"#{d}"

/-- What a repetition tries first.  A greedy one tries the longest candidate first, a lazy one the
shortest; a possessive one takes the longest candidate and never another. -/
inductive Quantifier
  | greedy
  | lazy
  | possessive
  deriving DecidableEq, Repr

/-- How many items a repetition holds, and what it tries first. -/
structure Repetition where
  min : Nat
  max : Option Nat
  quantifier : Quantifier
  deriving DecidableEq, Repr

namespace Repetition

/-- Any number of items. -/
def any : Repetition := ⟨0, none, .greedy⟩

/-- At least `min` items. -/
def atLeast (min : Nat) : Repetition := ⟨min, none, .greedy⟩

/-- From `min` to `max` items. -/
def between (min max : Nat) : Repetition := ⟨min, some max, .greedy⟩

/-- Exactly `count` items. -/
def exactly (count : Nat) : Repetition := between count count

/-- The same bounds with another quantifier. -/
def withQuantifier (r : Repetition) (q : Quantifier) : Repetition := { r with quantifier := q }

/-- Whether `count` items satisfy the bounds. -/
def admits (r : Repetition) (count : Nat) : Bool :=
  decide (r.min ≤ count) && r.max.all fun max => decide (count ≤ max)

/-- The bounds as a range. -/
def display (r : Repetition) : String :=
  match r.max with
  | some max => s!"{r.min}..={max}"
  | none => s!"{r.min}.."

/-- Whether the bounds leave room for an item and do not exclude each other. -/
def isValid (r : Repetition) : Bool :=
  r.max.all fun max => max != 0 && decide (r.min ≤ max)

theorem admits_iff {r : Repetition} {count : Nat} :
    r.admits count = true ↔ r.min ≤ count ∧ ∀ max, r.max = some max → count ≤ max := by
  cases h : r.max <;> simp [admits, h]

/-- The bounds of a valid repetition leave room for an item and do not exclude each other. -/
theorem bounds_of_isValid {r : Repetition} (h : r.isValid = true) :
    ∀ max, r.max = some max → 0 < max ∧ r.min ≤ max := by
  intro max hmax
  rw [isValid, hmax, Option.all_some, Bool.and_eq_true, decide_eq_true_eq] at h
  obtain ⟨hne, hle⟩ := h
  exact ⟨Nat.pos_of_ne_zero (by simpa using hne), hle⟩

end Repetition

/-! ### Rules -/

/-- What a definition stands for. -/
inductive Rule
  /-- Exactly the given text. -/
  | literal (text : Text)
  /-- The texts that a pattern matches. -/
  | pattern (source : Text)
  /-- The empty text. -/
  | empty
  /-- The items one after the other. -/
  | sequence (items : List DefId)
  /-- One of the alternatives; the first that fits is taken. -/
  | choice (alternatives : List DefId)
  /-- The item or nothing. -/
  | optional (item : DefId) (quantifier : Quantifier)
  /-- Several items in a row. -/
  | loop (item : DefId) (repetition : Repetition)
  /-- Several items with a separator between any two.  The default is the text of a separator that
  comes with an inserted item. -/
  | separated (item separator : DefId) (default : Option Text) (repetition : Repetition)
  /-- Another definition, perhaps under a field name. -/
  | alias (target : DefId) (name : Option Symbol)
  /-- The definition that a reference was bound to. -/
  | forward (target : DefId)
  /-- Another definition, whose fresh nodes begin with the given content. -/
  | withDefault (content : Text) (target : DefId)
  deriving DecidableEq

namespace Rule

/-- The definition that a rule merely stands for, when it is of that kind. -/
def target? : Rule → Option DefId
  | .alias target _ => some target
  | .forward target => some target
  | .withDefault _ target => some target
  | _ => none

/-- Whether a rule merely stands for another definition. -/
def isIndirect (r : Rule) : Bool := r.target?.isSome

/-- Whether a rule mentions no other definition. -/
def isLeaf : Rule → Bool
  | .literal _ => true
  | .pattern _ => true
  | .empty => true
  | _ => false

/-- The definitions that a rule mentions, in order. -/
def references : Rule → List DefId
  | .literal _ => []
  | .pattern _ => []
  | .empty => []
  | .sequence items => items
  | .choice alternatives => alternatives
  | .optional item _ => [item]
  | .loop item _ => [item]
  | .separated item separator _ _ => [item, separator]
  | .alias target _ => [target]
  | .forward target => [target]
  | .withDefault _ target => [target]

/-- The definitions whose nodes are created together with a node of this rule. -/
def eager : Rule → List DefId
  | .sequence items => items
  | .alias target _ => [target]
  | .forward target => [target]
  | .withDefault _ target => [target]
  | _ => []

/-- The bounds of a repetition, for rules that have them. -/
def repetition? : Rule → Option Repetition
  | .loop _ repetition => some repetition
  | .separated _ _ _ repetition => some repetition
  | _ => none

/-- The quantifier of a rule, for rules that have one. -/
def quantifier? : Rule → Option Quantifier
  | .optional _ quantifier => some quantifier
  | .loop _ repetition => some repetition.quantifier
  | .separated _ _ _ repetition => some repetition.quantifier
  | _ => none

end Rule

end Tessera
