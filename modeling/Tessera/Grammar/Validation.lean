/-
**Validation of tables of rules.**

A table of rules is a grammar when every definition it mentions exists, every pattern can be read and
compiles, every bound leaves room, every indirection leads to a rule, no node would have to create
itself, and every default content fits.  The checks run in this order, and the first fault is reported.

Main definitions:

* `Tessera.checkRule` — the checks of a single rule;
* `Tessera.resolveChains` — the structural definition behind every definition;
* `Tessera.checkEagerCycles` — no definition creates a node of itself;
* `Tessera.checkDefaults` — default contents fit;
* `Tessera.Grammar.ofRules` — the grammar of a table of rules.
-/

import Tessera.Grammar.Error

set_option autoImplicit false

namespace Tessera

/-- The rule of a definition in a table; outside of the table definitions are empty. -/
def ruleOf (rules : Array Rule) (d : DefId) : Rule := rules.getD d .empty

/-! ### Single rules -/

/-- A rule mentions only definitions below `size`, its pattern can be read, and its bounds leave
room. -/
def checkRule (e : Engine) (size : Nat) (rule : Rule) : Except GrammarError Unit :=
  match rule.references.find? fun d => decide (size ≤ d) with
  | some d => .error (.unknownDefinition d)
  | none =>
      match rule with
      | .pattern source =>
          if e.reads source then .ok () else .error (.invalidPattern source)
      | rule =>
          match rule.repetition? with
          | some r => if r.isValid then .ok () else .error (.invalidBounds r.min r.max)
          | none => .ok ()

/-- The exact matcher of a pattern leaf; other rules have none. -/
def compileLeaf (e : Engine) : Rule → Except GrammarError (Option (Text → Bool))
  | .pattern source =>
      match e.whole? source with
      | some isMatch => .ok (some isMatch)
      | none => .error (.invalidPattern source)
  | _ => .ok none

/-! ### Indirections -/

/-- The end of the chain of indirections that begins with a definition, if it is reached within
`fuel` steps. -/
def chainEnd? (rule : DefId → Rule) : Nat → DefId → Option DefId
  | 0, _ => none
  | fuel + 1, d =>
      match (rule d).target? with
      | some target => chainEnd? rule fuel target
      | none => some d

/-- The structural definition behind every definition.  A chain that is longer than the table leads
back to itself. -/
def resolveChains (rules : Array Rule) : Except GrammarError (List DefId) :=
  (List.range rules.size).mapM fun d =>
    match chainEnd? (ruleOf rules) (rules.size + 1) d with
    | some e => .ok e
    | none => .error (.unresolvableReference d)

/-! ### Eager cycles -/

/-- Walks along the definitions that are created together with `d`.  `path` lists the definitions
that are being created around `d`, innermost first, and `done` those that are known to end.  Fails
with the cycle when a definition of the path is created again. -/
def visitEager (rule : DefId → Rule) :
    Nat → List DefId → List DefId → DefId → Except (List DefId) (List DefId)
  | 0, _, done, _ => .ok done
  | fuel + 1, path, done, d => do
      let path := d :: path
      let done ← (rule d).eager.foldlM (fun done e =>
        if path.contains e then .error (e :: (path.takeWhile (· != e)).reverse)
        else if done.contains e then .ok done
        else visitEager rule fuel path done e) done
      return d :: done

/-- No definition creates a node of itself. -/
def checkEagerCycles (rules : Array Rule) : Except GrammarError Unit :=
  let walk := (List.range rules.size).foldlM (fun done d =>
    if done.contains d then .ok done
    else visitEager (ruleOf rules) (rules.size + 1) [] done d) []
  match walk with
  | .ok _ => .ok ()
  | .error cycle => .error (.infiniteRecursion cycle)

/-! ### Defaults -/

/-- The default content that a rule brings, and the definition that it must fit. -/
def Rule.default? : Rule → Option (DefId × Text)
  | .withDefault content target => some (target, content)
  | .separated _ separator (some text) _ => some (separator, text)
  | _ => none

/-- The default content of one definition fits. -/
def checkDefault (g : Grammar) (d : DefId) : Except GrammarError Unit :=
  match (g.rule d).default? with
  | none => .ok ()
  | some (target, text) =>
      match (resolve g target text).result with
      | .ok _ => .ok ()
      | .error e => .error (.invalidDefault d text e)

/-- The default contents of all definitions fit. -/
def checkDefaults (g : Grammar) : Except GrammarError Unit :=
  (List.range g.size).forM (checkDefault g)

/-! ### All together -/

/-- The grammar of a table of rules, whose patterns an engine reads. -/
def Grammar.ofRules (e : Engine) (rules : Array Rule) (names : NameTable) (limits : Limits) :
    Except GrammarError Grammar := do
  rules.toList.forM (checkRule e rules.size)
  let leaves ← rules.toList.mapM (compileLeaf e)
  let resolved ← resolveChains rules
  checkEagerCycles rules
  let g : Grammar :=
    { rules := rules
      resolved := resolved.toArray
      names := names
      limits := limits
      engine := e
      acceptors := Acceptors.ofRules e rules limits leaves.toArray }
  checkDefaults g
  return g

end Tessera
