/-
**Grammars.**

A grammar is a table of rules, addressed by number, together with the structural definition behind
every indirection, the table of field names, the limits, the engine that reads its patterns, and what
decides whether a text may belong to a definition.

The last part is kept apart as the *acceptors* of the grammar, because only its answers matter to
everything else: the exact matchers of the pattern leaves, the matchers of the patterns of all
definitions, and the matchers of what may follow an item.

Main definitions:

* `Tessera.Tail` — what may follow a position inside a definition;
* `Tessera.Acceptors` — the matchers of a grammar;
* `Tessera.Grammar` — grammars;
* `Tessera.Grammar.shape`, `name?`, `defaultContent?`, `quantifier?` — what a definition is like,
  through all indirections;
* `Tessera.Acceptors.ofRules` — the matchers that the patterns of the definitions give.
-/

import Tessera.Grammar.Template
import Tessera.Limits
import Tessera.Pattern.Matcher

set_option autoImplicit false

namespace Tessera

/-! ### Acceptors -/

/-- What may follow a position inside a structural definition. -/
inductive Tail
  /-- The items of a sequence from number `next` on. -/
  | sequence (d : DefId) (next : Nat)
  /-- Further items of a loop. -/
  | loop (d : DefId)
  /-- What may follow an item of a separated loop. -/
  | afterItem (d : DefId)
  /-- What must follow a separator of a separated loop. -/
  | afterSeparator (d : DefId)
  deriving DecidableEq

/-- What decides whether a text may belong to a definition. -/
structure Acceptors where
  /-- Whether a text is exactly a match of the pattern leaf with the given number. -/
  leaf : DefId → Text → Bool
  /-- The matcher of the pattern of a definition. -/
  definition : DefId → Matcher
  /-- The matcher of what may follow a position. -/
  tail : Tail → Matcher

/-! ### Grammars -/

/-- A validated table of rules. -/
structure Grammar where
  rules : Array Rule
  /-- The structural definition behind every definition. -/
  resolved : Array DefId
  names : NameTable
  limits : Limits
  /-- What reads and compiles the patterns. -/
  engine : Engine
  acceptors : Acceptors

namespace Grammar

/-- The number of definitions. -/
def size (g : Grammar) : Nat := g.rules.size

/-- Whether a number belongs to a definition. -/
def contains (g : Grammar) (d : DefId) : Bool := decide (d < g.size)

/-- The rule of a definition, as declared. -/
def rule (g : Grammar) (d : DefId) : Rule := g.rules.getD d .empty

/-- The structural definition behind a definition. -/
def resolve (g : Grammar) (d : DefId) : DefId := g.resolved.getD d d

/-- The structural rule that a definition behaves as. -/
def shape (g : Grammar) (d : DefId) : Rule := g.rule (g.resolve d)

/-- The definitions from `d` on, each standing for the next, at most `fuel` steps far. -/
def chainFrom (rule : DefId → Rule) : Nat → DefId → List DefId
  | 0, d => [d]
  | fuel + 1, d =>
      match (rule d).target? with
      | some target => d :: chainFrom rule fuel target
      | none => [d]

/-- The definitions from `d` to the structural definition behind it. -/
def chain (g : Grammar) (d : DefId) : List DefId := chainFrom g.rule g.size d

/-- The field name of a definition: that of the first alias on its chain that has one. -/
def name? (g : Grammar) (d : DefId) : Option String :=
  let symbol? := (g.chain d).findSome? fun e =>
    match g.rule e with
    | .alias _ name => name
    | _ => none
  symbol?.bind g.names.resolve?

/-- The content with which a fresh node of a definition begins: the outermost one on its chain. -/
def defaultContent? (g : Grammar) (d : DefId) : Option Text :=
  (g.chain d).findSome? fun e =>
    match g.rule e with
    | .withDefault content _ => some content
    | _ => none

/-- The quantifier of an optional, a loop or a separated loop. -/
def quantifier? (g : Grammar) (d : DefId) : Option Quantifier := (g.shape d).quantifier?

/-- The template of the pattern of a definition. -/
def template (g : Grammar) (d : DefId) : Template :=
  Template.ofDefinition g.rule g.size g.limits.patternDepth d

/-- The pattern of a definition, without anchors. -/
def regex (g : Grammar) (d : DefId) : Text := (g.template d).toText

/-- Whether a text is exactly a match of the pattern leaf behind a definition. -/
def leafMatches (g : Grammar) (d : DefId) (text : Text) : Bool :=
  g.acceptors.leaf (g.resolve d) text

/-- Whether a text matches the pattern of a definition. -/
def feasible (g : Grammar) (d : DefId) (text : Text) : Bool :=
  (g.acceptors.definition d).whole text

end Grammar

/-! ### The acceptors of a table of rules -/

namespace Tail

/-- The template of what may follow, given the rule and the templates of definitions. -/
def template (rule : DefId → Rule) (inner : DefId → Template) : Tail → Template
  | .sequence d next =>
      match rule d with
      | .sequence items => .sequence ((items.drop next).map inner)
      | _ => .empty
  | .loop d =>
      match rule d with
      | .loop item _ => .repeated (inner item) 0 none false
      | _ => .empty
  | .afterItem d =>
      match rule d with
      | .separated item separator _ _ =>
          .repeated (.sequence [inner separator, inner item]) 0 none false
      | _ => .empty
  | .afterSeparator d =>
      match rule d with
      | .separated item separator _ _ => .separated (inner item) (inner separator) 1 none false
      | _ => .empty

end Tail

/-- The matcher of a template; both are built when the matcher is first asked. -/
def matcherOf (e : Engine) (t : Unit → Template) : Thunk Matcher :=
  ⟨fun u => Matcher.ofPattern e (t u).toText⟩

/-- The matchers of all tails of one definition: those of a sequence in order, that of a loop, or
those after an item and after a separator. -/
def tailMatchers (e : Engine) (rule : DefId → Rule) (inner : DefId → Template) (d : DefId) :
    Array (Thunk Matcher) :=
  let matcher (t : Tail) : Thunk Matcher := matcherOf e fun _ => t.template rule inner
  match rule d with
  | .sequence items =>
      ((List.range (items.length + 1)).map fun next => matcher (.sequence d next)).toArray
  | .loop _ _ => #[matcher (.loop d)]
  | .separated _ _ _ _ => #[matcher (.afterItem d), matcher (.afterSeparator d)]
  | _ => #[]

/-- The place of a tail among the tails of its definition. -/
def Tail.place : Tail → DefId × Nat
  | .sequence d next => (d, next)
  | .loop d => (d, 0)
  | .afterItem d => (d, 0)
  | .afterSeparator d => (d, 1)

/-- The matcher of the empty pattern. -/
def emptyMatcher (e : Engine) : Thunk Matcher := matcherOf e fun _ => .empty

/-- The acceptors that an engine gives for a table of rules, given the matchers of its pattern leaves.
-/
def Acceptors.ofRules (e : Engine) (rules : Array Rule) (limits : Limits)
    (leaves : Array (Option (Text → Bool))) : Acceptors :=
  let rule (d : DefId) : Rule := rules.getD d .empty
  let template (d : DefId) : Template :=
    Template.ofDefinition rule rules.size limits.patternDepth d
  let definitions := (Array.range rules.size).map fun d => matcherOf e fun _ => template d
  let tails := (Array.range rules.size).map fun d => tailMatchers e rule template d
  { leaf := fun d text => (leaves.getD d none).any fun isMatch => isMatch text
    definition := fun d => (definitions.getD d (emptyMatcher e)).get
    tail := fun t => ((tails.getD t.place.1 #[]).getD t.place.2 (emptyMatcher e)).get }

end Tessera
