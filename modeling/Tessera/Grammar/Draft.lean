/-
**Drafts of grammars.**

A grammar is put together definition by definition.  A definition may mention others that are only
declared: a reference is declared first, mentioned by other rules, and bound once to what it stands
for.  Everything that can be wrong with a rule is found when the draft is finished; only a wrong use
of binding is reported at once.  A draft is begun with the engine that will read its patterns.

Main definitions:

* `Tessera.Draft` — the definitions so far;
* `Tessera.Draft.define`, `named`, `reference` — a new definition and its number;
* `Tessera.Draft.bind` — what a reference stands for;
* `Tessera.Draft.build` — the finished grammar.
-/

import Tessera.Grammar.Validation
import Tessera.Pattern.Standard

set_option autoImplicit false

namespace Tessera

/-- The definitions so far; a reference that is not bound has no rule. -/
structure Draft where
  slots : Array (Option Rule)
  names : NameTable
  limits : Limits
  /-- What will read and compile the patterns. -/
  engine : Engine

namespace Draft

/-- The draft without definitions, for the standard engine. -/
def empty (limits : Limits) : Draft := ⟨#[], .empty, limits, .standard⟩

/-- The number of the next definition: its position, which is cut to 32 bits. -/
def next (d : Draft) : DefId := d.slots.size % UInt32.size

/-- Adds a definition with a rule. -/
def define (d : Draft) (rule : Rule) : DefId × Draft :=
  (d.next, { d with slots := d.slots.push (some rule) })

/-- Adds an alias with a field name. -/
def named (d : Draft) (name : String) (target : DefId) : DefId × Draft :=
  let (symbol, names) := d.names.intern name
  { d with names := names }.define (.alias target (some symbol))

/-- Declares a reference. -/
def reference (d : Draft) : DefId × Draft :=
  (d.next, { d with slots := d.slots.push none })

/-- Binds a reference to a definition.  It must be declared and not bound yet. -/
def bind (d : Draft) (ref target : DefId) : Except GrammarError Draft :=
  if d.slots.size ≤ target then .error (.unknownDefinition target)
  else
    match d.slots[ref]? with
    | none => .error (.unknownDefinition ref)
    | some none => .ok { d with slots := d.slots.setIfInBounds ref (some (.forward target)) }
    | some (some (.forward _)) => .error (.alreadyBound ref)
    | some (some _) => .error (.notAReference ref)

/-- The rules of a list of slots, the first of which has number `d`, when all are bound. -/
def boundRules (d : DefId) : List (Option Rule) → Except GrammarError (List Rule)
  | [] => .ok []
  | none :: _ => .error (.unboundReference d)
  | some rule :: slots => (boundRules (d + 1) slots).map (rule :: ·)

/-- Validates every rule and gives the grammar. -/
def build (d : Draft) : Except GrammarError Grammar := do
  let rules ← boundRules 0 d.slots.toList
  Grammar.ofRules d.engine rules.toArray d.names d.limits

end Draft

end Tessera
