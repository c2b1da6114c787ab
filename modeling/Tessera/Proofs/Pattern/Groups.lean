/-
**Patterns inside of groups.**

A pattern that can be read by itself, and that can be read when it is wrapped to match a whole text,
can be put into a group of any other pattern: there it is read as the same tree.  The reader goes over
the group in the same steps; only what lies deeper in its stack and the names that were seen before
differ.  The wrapping makes sure that no comment is open at the end of the pattern, which would
swallow the end of the group.

Main definitions:

* `Tessera.Pattern.Runs` — reading from a state gives a tree;
* `Tessera.Pattern.Groupable` — a pattern is read in groups as it is by itself.

Main results:

* `Tessera.Pattern.Reading.step_within` — one step inside of a group;
* `Tessera.Pattern.Reading.run_within` — all steps inside of a group;
* `Tessera.Pattern.groupable_of_parse?` — **a pattern that can be read and wrapped can be grouped**.
-/

import Tessera.Pattern.Denotation
import Tessera.Pattern.Engine
import Tessera.Proofs.Pattern.Brackets

set_option autoImplicit false

namespace Tessera.Pattern

/-! ### Runs -/

/-- Reading the text from the state gives the tree. -/
def Runs (r : Reading) (text : List Char) (a : Ast) : Prop := ∃ n, Reading.run n r text = some a

namespace Runs

variable {r : Reading} {t t' cs : List Char} {c : Char} {a b : Ast}

theorem nil_iff (h : skipBlanks r.level.verbose t = []) : Runs r t a ↔ r.finish = some a := by
  constructor
  · rintro ⟨_ | n, hrun⟩
    · simp [Reading.run] at hrun
    · simpa only [Reading.run, h] using hrun
  · intro hfinish
    exact ⟨1, by simpa only [Reading.run, h] using hfinish⟩

theorem cons_iff (h : skipBlanks r.level.verbose t = c :: cs) :
    Runs r t a ↔ ∃ r' rest, r.step c cs = some (r', rest) ∧ Runs r' rest a := by
  constructor
  · rintro ⟨_ | n, hrun⟩
    · simp [Reading.run] at hrun
    · simp only [Reading.run, h] at hrun
      cases hstep : r.step c cs with
      | none => simp [hstep] at hrun
      | some p =>
          rw [hstep] at hrun
          exact ⟨p.1, p.2, rfl, n, hrun⟩
  · rintro ⟨r', rest, hstep, n, hrun⟩
    exact ⟨n + 1, by simpa only [Reading.run, h, hstep] using hrun⟩

theorem step_iff {r' : Reading} {rest : List Char} (h : skipBlanks r.level.verbose t = c :: cs)
    (hstep : r.step c cs = some (r', rest)) : Runs r t a ↔ Runs r' rest a := by
  rw [cons_iff h]
  constructor
  · rintro ⟨r₁, rest₁, hstep₁, hrun⟩
    cases hstep.symm.trans hstep₁
    exact hrun
  · exact fun hrun => ⟨r', rest, hstep, hrun⟩

/-- Blanks before what is left make no difference. -/
theorem congr (h : skipBlanks r.level.verbose t = skipBlanks r.level.verbose t') :
    Runs r t a ↔ Runs r t' a := by
  cases hskip : skipBlanks r.level.verbose t with
  | nil => rw [nil_iff hskip, nil_iff (h ▸ hskip)]
  | cons c cs => rw [cons_iff hskip, cons_iff (h ▸ hskip)]

/-- A text is read as one tree. -/
theorem unique (h : Runs r t a) (h' : Runs r t b) : a = b := by
  obtain ⟨n, hn⟩ := h
  obtain ⟨m, hm⟩ := h'
  induction n generalizing m r t with
  | zero => simp [Reading.run] at hn
  | succ n ih =>
      rcases m with _ | m
      · simp [Reading.run] at hm
      rw [Reading.run] at hn hm
      cases hskip : skipBlanks r.level.verbose t with
      | nil =>
          simp only [hskip] at hn hm
          exact Option.some.inj (hn.symm.trans hm)
      | cons c cs =>
          simp only [hskip] at hn hm
          cases hstep : r.step c cs with
          | none => simp [hstep] at hn
          | some p =>
              simp only [hstep] at hn hm
              exact ih hn m hm

end Runs

theorem runs_of_parse? {t : List Char} {a : Ast} (h : Ast.parse? t = some a) :
    Runs ⟨.start false, [], []⟩ t a := by
  unfold Ast.parse? at h
  split at h
  · simp at h
  · next b hrun =>
    split at h
    · cases h
      exact ⟨_, hrun⟩
    · simp at h

/-! ### Steps inside of a group -/

/-- The state is at the same level of the same groups, inside of the groups of `outer`. -/
structure Reading.Inside (q r : Reading) (outer : List OpenGroup) : Prop where
  level : q.level = r.level
  stack : q.stack = r.stack ++ outer

theorem skipLazy_append (t s : List Char) :
    skipLazy (t ++ ')' :: s) = skipLazy t ++ ')' :: s := by
  unfold skipLazy
  split
  · next cs heq =>
    rcases t with _ | ⟨c, t⟩
    · simp at heq
    · obtain ⟨rfl, rfl⟩ := List.cons.inj heq
      rfl
  · next hne =>
    split
    · next cs => exact absurd rfl (hne _)
    · rfl

theorem Reading.Inside.withLevel {q r : Reading} {outer : List OpenGroup} (h : q.Inside r outer)
    (l : Level) : (q.withLevel l).Inside (r.withLevel l) outer :=
  ⟨rfl, h.stack⟩

theorem repeatLast_verbose {l l' : Level} {min : Nat} {max : Option Nat}
    (h : l.repeatLast min max = some l') : l'.verbose = l.verbose := by
  unfold Level.repeatLast at h
  split at h <;> cases h
  rfl

/-- A step leaves the same state inside of a group, and what follows up to blanks. -/
def StepsWithin (r : Reading) (c : Char) (cs : List Char) (r₁ : Reading) (rest : List Char) : Prop :=
  ∃ raw, skipBlanks r₁.level.verbose rest = skipBlanks r₁.level.verbose raw ∧
    ∀ s, (OpenComment r₁.level.verbose raw → skipVerbose true s = []) →
      ∀ (q : Reading) (outer : List OpenGroup), q.Inside r outer →
        ∀ q₁ rest', q.step c (cs ++ ')' :: s) = some (q₁, rest') →
          q₁.Inside r₁ outer ∧
            skipBlanks r₁.level.verbose rest' = skipBlanks r₁.level.verbose (raw ++ ')' :: s)

section Steps

variable {r r₁ : Reading} {c : Char} {cs rest : List Char}

/-- A step that leaves exactly what follows. -/
theorem StepsWithin.of_append
    (h : ∀ (s : List Char) (q : Reading) (outer : List OpenGroup), q.Inside r outer →
      ∀ q₁ rest', q.step c (cs ++ ')' :: s) = some (q₁, rest') →
        q₁.Inside r₁ outer ∧ rest' = rest ++ ')' :: s) :
    StepsWithin r c cs r₁ rest := by
  refine ⟨rest, rfl, fun s _ q outer hq q₁ rest' hstep => ?_⟩
  obtain ⟨hinside, rfl⟩ := h s q outer hq q₁ rest' hstep
  exact ⟨hinside, rfl⟩

/-- A step that changes the level and skips ahead. -/
theorem StepsWithin.of_skip (skip : List Char → List Char) (move : Level → Option Level)
    (hskip : ∀ s, skip (cs ++ ')' :: s) = skip cs ++ ')' :: s)
    (hstep : ∀ (q : Reading) (t : List Char),
      q.step c t = (move q.level).map fun l => (q.withLevel l, skip t))
    (h : r.step c cs = some (r₁, rest)) : StepsWithin r c cs r₁ rest := by
  refine .of_append fun s q outer hq q₁ rest' h' => ?_
  rw [hstep] at h h'
  rw [hq.level, hskip] at h'
  obtain ⟨l, hl, heq⟩ := Option.map_eq_some_iff.1 h
  cases heq
  rw [hl] at h'
  cases h'
  exact ⟨hq.withLevel l, rfl⟩

/-- A step that adds an item. -/
theorem StepsWithin.of_push (a : Ast)
    (hstep : ∀ (q : Reading) (t : List Char), q.step c t = some (q.withLevel (q.level.push a), t))
    (h : r.step c cs = some (r₁, rest)) : StepsWithin r c cs r₁ rest :=
  .of_skip id (fun l => some (l.push a)) (fun _ => rfl) hstep h

/-- A step that changes the level by what a reader of the mode in force finds. -/
theorem StepsWithin.of_reader {α : Type} (f : List Char → Option (α × List Char))
    (move : Level → α → Option Level) (hmove : ∀ l x l', move l x = some l' → l'.verbose = l.verbose)
    (hstep : ∀ (q : Reading) (t : List Char), q.level.verbose = r.level.verbose →
      q.step c t = (f t).bind fun (x, rest) =>
        (move q.level x).map fun l => (q.withLevel l, rest))
    (hf : ReadsWithin r.level.verbose f cs) (h : r.step c cs = some (r₁, rest)) :
    StepsWithin r c cs r₁ rest := by
  rw [hstep r cs rfl] at h
  obtain ⟨⟨x, inner⟩, hread, h⟩ := Option.bind_eq_some_iff.1 h
  obtain ⟨l, hl, heq⟩ := Option.map_eq_some_iff.1 h
  obtain ⟨rfl, rfl⟩ := Prod.mk.inj heq
  have hverbose : (r.withLevel l).level.verbose = r.level.verbose := hmove _ _ _ hl
  obtain ⟨raw, hraw, hwithin⟩ := hf x inner hread
  rw [StepsWithin, hverbose]
  refine ⟨raw, hraw, fun s hopen q outer hq q₁ rest' hstep' => ?_⟩
  obtain ⟨inner', hread', hraw'⟩ := hwithin s hopen
  rw [hstep q _ (by rw [hq.level]), hread', Option.bind_some, hq.level] at hstep'
  dsimp only at hstep'
  rw [hl] at hstep'
  cases hstep'
  exact ⟨hq.withLevel l, hraw'⟩

theorem openGroup_within (hne : skipBlanks r.level.verbose cs ≠ [])
    (h : r.openGroup cs = some (r₁, rest)) (s : List Char) {q q₁ : Reading}
    {outer : List OpenGroup} (hq : q.Inside r outer) {rest' : List Char}
    (h' : q.openGroup (cs ++ ')' :: s) = some (q₁, rest')) :
    q₁.Inside r₁ outer ∧ rest' = rest ++ ')' :: s := by
  unfold Reading.openGroup at h h'
  rw [hq.level] at h'
  cases hread : readOpening r.level.verbose cs with
  | none => simp [hread] at h
  | some p =>
      obtain ⟨o, inner⟩ := p
      rw [readOpening_append hne hread] at h'
      rw [hread] at h
      cases o with
      | flags items =>
          cases h
          cases h'
          exact ⟨hq.withLevel _, rfl⟩
      | group name items =>
          simp only [Option.ite_none_left_eq_some] at h h'
          obtain ⟨-, h⟩ := h
          obtain ⟨-, h'⟩ := h'
          cases h
          cases h'
          exact ⟨⟨rfl, by simp [hq.stack]⟩, rfl⟩

theorem closeGroup_within {q q₁ : Reading} {outer : List OpenGroup} (hq : q.Inside r outer)
    (h : r.closeGroup = some r₁) (h' : q.closeGroup = some q₁) : q₁.Inside r₁ outer := by
  unfold Reading.closeGroup at h h'
  rw [hq.stack, hq.level] at h'
  cases hstack : r.stack with
  | nil => simp [hstack] at h
  | cons g gs =>
      rw [hstack] at h h'
      cases h
      cases h'
      exact ⟨rfl, rfl⟩

/-- **One step inside of a group** is the step of the pattern by itself. -/
theorem Reading.step_within (hopen : c = '(' → skipBlanks r.level.verbose cs ≠ [])
    (h : r.step c cs = some (r₁, rest)) : StepsWithin r c cs r₁ rest := by
  have hstep := h
  unfold Reading.step at hstep
  split at hstep
  · exact .of_append fun s q outer hq q₁ rest' h' => openGroup_within (hopen rfl) h s hq h'
  · refine .of_append fun s q outer hq q₁ rest' h' => ?_
    obtain ⟨r', hclose, heq⟩ := Option.map_eq_some_iff.1 h
    obtain ⟨q', hclose', heq'⟩ := Option.map_eq_some_iff.1 h'
    cases heq
    cases heq'
    exact ⟨closeGroup_within hq hclose hclose', rfl⟩
  · exact .of_skip id (fun l => some l.branch) (fun _ => rfl) (fun _ _ => rfl) h
  · refine .of_reader (fun t => (readClass r.level.verbose t).map fun p => ((p.1, p.2.1), p.2.2))
      (fun l p => some (l.push (.bracketed p.1 p.2))) ?_ ?_ ?_ h
    · intro l x l' hl
      cases hl
      rfl
    · intro q t hverbose
      simp only [Reading.step, hverbose]
      cases readClass r.level.verbose t <;> rfl
    · refine .of_append fun x inner hread s => ?_
      obtain ⟨⟨negated, body, inner'⟩, hclass, heq⟩ := Option.map_eq_some_iff.1 hread
      cases heq
      rw [readClass_append hclass]
      rfl
  · exact .of_skip skipLazy (·.repeatLast 0 (some 1)) (skipLazy_append cs) (fun _ _ => rfl) h
  · exact .of_skip skipLazy (·.repeatLast 0 none) (skipLazy_append cs) (fun _ _ => rfl) h
  · exact .of_skip skipLazy (·.repeatLast 1 none) (skipLazy_append cs) (fun _ _ => rfl) h
  · refine .of_reader (readCount r.level.verbose) (fun l p => l.repeatLast p.1 p.2)
      ?_ ?_ (readCount_within cs) h
    · intro l x l' hl
      exact repeatLast_verbose hl
    · intro q t hverbose
      simp only [Reading.step, hverbose]
      cases readCount r.level.verbose t <;> rfl
  · refine .of_reader (readEscape r.level.verbose) (fun l p => some (l.push p.toAst))
      ?_ ?_ (readEscape_within cs) h
    · intro l x l' hl
      cases hl
      rfl
    · intro q t hverbose
      simp only [Reading.step, hverbose]
      cases readEscape r.level.verbose t <;> rfl
  · exact .of_push .dot (fun _ _ => rfl) h
  · exact .of_push (.anchor .lineStart) (fun _ _ => rfl) h
  · exact .of_push (.anchor .lineEnd) (fun _ _ => rfl) h
  · exact .of_push (.literal ⟨c, false⟩) (fun q t => by simp [Reading.step]) h

end Steps

/-! ### Runs inside of a group -/

theorem Reading.run_congr {n : Nat} {r : Reading} {t t' : List Char}
    (h : skipBlanks r.level.verbose t = skipBlanks r.level.verbose t') :
    Reading.run n r t = Reading.run n r t' := by
  cases n with
  | zero => rfl
  | succ n => rw [Reading.run, Reading.run, h]

/-- Nothing is read after a parenthesis at the end, for its group is not closed. -/
theorem not_run_of_bare_paren {n : Nat} {r r₁ : Reading} {cs rest : List Char} {a : Ast}
    (hcs : skipBlanks r.level.verbose cs = []) (hstep : r.step '(' cs = some (r₁, rest))
    (h : Reading.run n r₁ rest = some a) : False := by
  have hopening : readOpening r.level.verbose cs = some (.group none [], []) := by
    simp [readOpening, hcs]
  simp only [Reading.step, Reading.openGroup, hopening] at hstep
  cases hstep
  cases n <;> simp [Reading.run, Reading.finish] at h

/-- Reading inside of a group comes to the end of the group with what was read by itself.  Only a
comment that is open there hides the end; then what follows must be swallowed as a whole. -/
structure EndsWithin (r : Reading) (t : List Char) (a : Ast) (l : Level) (raw : List Char) : Prop where
  tree : l.tree = a
  blank : skipBlanks l.verbose raw = []
  comment : OpenComment r.level.verbose t → OpenComment l.verbose raw
  runs : ∀ s, (OpenComment l.verbose raw → skipVerbose true s = []) →
    ∀ (q : Reading) (outer : List OpenGroup), q.Inside r outer →
      ∀ t' b, skipBlanks r.level.verbose t' = skipBlanks r.level.verbose (t ++ ')' :: s) →
        Runs q t' b → ∃ names, Runs ⟨l, outer, names⟩ (raw ++ ')' :: s) b

/-- **All steps inside of a group** are those of the pattern by itself. -/
theorem Reading.run_within {n : Nat} {r : Reading} {t : List Char} {a : Ast}
    (h : Reading.run n r t = some a) : ∃ l raw, EndsWithin r t a l raw := by
  induction n generalizing r t with
  | zero => simp [Reading.run] at h
  | succ n ih =>
      cases hskip : skipBlanks r.level.verbose t with
      | nil =>
          have hfinish : r.finish = some a := by simpa only [Reading.run, hskip] using h
          unfold Reading.finish at hfinish
          split at hfinish
          · next hstack =>
            refine ⟨r.level, t, Option.some.inj hfinish, hskip, id, ?_⟩
            rintro s - ⟨l, stack, names⟩ outer ⟨rfl, rfl⟩ t' b ht' hrun
            rw [hstack] at hrun
            exact ⟨names, (Runs.congr (r := ⟨r.level, outer, names⟩) ht').1 hrun⟩
          · simp at hfinish
      | cons c cs =>
          simp only [Reading.run, hskip] at h
          cases hstep : r.step c cs with
          | none => simp [hstep] at h
          | some p =>
              obtain ⟨r₁, rest⟩ := p
              rw [hstep] at h
              have h : Reading.run n r₁ rest = some a := h
              have hopen : c = '(' → skipBlanks r.level.verbose cs ≠ [] := by
                rintro rfl hcs
                exact not_run_of_bare_paren hcs hstep h
              obtain ⟨raw₁, hraw₁, hwithin⟩ := step_within hopen hstep
              rw [Reading.run_congr hraw₁] at h
              obtain ⟨l, raw, hends⟩ := ih h
              have hclosed : ¬OpenComment r.level.verbose t := fun ht => by
                simp [ht.blank] at hskip
              refine ⟨l, raw, hends.tree, hends.blank, fun ht => absurd ht hclosed, ?_⟩
              intro s hs q outer hq t' b ht' hrun
              have hq' : skipBlanks q.level.verbose t' = c :: (cs ++ ')' :: s) := by
                rw [hq.level, ht', skipBlanks_append hskip]
              obtain ⟨q₁, rest', hstep', hrun'⟩ := (Runs.cons_iff hq').1 hrun
              obtain ⟨hq₁, hrest'⟩ :=
                hwithin s (fun hraw => hs (hends.comment hraw)) q outer hq q₁ rest' hstep'
              exact hends.runs s hs q₁ outer hq₁ rest' b hrest' hrun'

/-! ### Groups -/

section Groups

variable {l : Level} {stack : List OpenGroup} {names : List String} {t : List Char} {a b : Ast}

/-- A group without a name and flags begins. -/
theorem runs_open (hl : l.verbose = false) :
    Runs ⟨l, stack, names⟩ ('(' :: '?' :: ':' :: t) b ↔
      Runs ⟨.start false, ⟨l, []⟩ :: stack, names⟩ t b := by
  have hskip : skipBlanks l.verbose ('(' :: '?' :: ':' :: t) = '(' :: '?' :: ':' :: t := by
    rw [hl]
    rfl
  refine Runs.step_iff (r := ⟨l, stack, names⟩) hskip ?_
  simp [Reading.step, Reading.openGroup, readOpening, flaggedOpening, skipBlanks, hl,
    readFlags, flagState]

/-- A group ends. -/
theorem runs_close {g : OpenGroup} :
    Runs ⟨l, g :: stack, names⟩ (')' :: t) b ↔
      Runs ⟨g.outer.push (.group g.flags l.tree), stack, names⟩ t b :=
  Runs.step_iff (r := ⟨l, g :: stack, names⟩) (skipBlanks_paren t) rfl

/-- The pattern is read in every group as it is by itself. -/
def Groupable (pattern : List Char) (a : Ast) : Prop :=
  ∀ s stack names b, Runs ⟨.start false, stack, names⟩ (pattern ++ ')' :: s) b →
    ∃ l names', l.tree = a ∧ Runs ⟨l, stack, names'⟩ (')' :: s) b

/-- **A pattern that can be read and wrapped can be grouped.** -/
theorem groupable_of_parse? (h : Ast.parse? t = some a) (hwrap : (Ast.parse? (wrapWhole t)).isSome) :
    Groupable t a := by
  obtain ⟨n, hrun⟩ := runs_of_parse? h
  obtain ⟨l, raw, hends⟩ := Reading.run_within hrun
  have hopen : ¬OpenComment l.verbose raw := by
    intro hcomment
    obtain ⟨w, hw⟩ := Option.isSome_iff_exists.1 hwrap
    -- the end of the wrapping is swallowed, and its group stays open
    have hstart := runs_of_parse? hw
    have hanchor : Runs ⟨(Level.start false).push (.anchor .textStart), [], []⟩
        ('(' :: '?' :: ':' :: (t ++ [')', '\\', 'z'])) w :=
      (Runs.step_iff (r := ⟨.start false, [], []⟩) rfl rfl).1 hstart
    have hgroup := (runs_open rfl).1 hanchor
    have hinside : Reading.Inside
        ⟨.start false, [⟨(Level.start false).push (.anchor .textStart), []⟩], []⟩
        ⟨.start false, [], []⟩ [⟨(Level.start false).push (.anchor .textStart), []⟩] := ⟨rfl, rfl⟩
    obtain ⟨names, hclose⟩ :=
      hends.runs ['\\', 'z'] (fun _ => by decide) _ _ hinside _ w rfl hgroup
    have hfinish := (Runs.nil_iff (r := ⟨l, _, names⟩)
      ((hcomment _).trans (by decide : skipVerbose true ['\\', 'z'] = []))).1 hclose
    simp [Reading.finish] at hfinish
  intro s stack names b hrun
  obtain ⟨names', hclose⟩ := hends.runs s (absurd · hopen) ⟨.start false, stack, names⟩ stack
    ⟨rfl, rfl⟩ _ b rfl hrun
  refine ⟨l, names', hends.tree, ?_⟩
  rcases paren_or_open hends.blank with hparen | hcomment
  · exact (Runs.congr (r := ⟨l, stack, names'⟩) (by rw [hparen, skipBlanks_paren])).1 hclose
  · exact absurd hcomment hopen

end Groups

end Tessera.Pattern
