/-
**The standard engine keeps its laws.**

The standard engine reads a written template as the expression that the template stands for, also when
it is wrapped to match whole texts.  Without conditions on positions the expression has a language, and
the motions over a text find it: from its beginning, from its end, and from one end to the other.

Main results:

* `Tessera.Pattern.Written.occursIn_iff` — a written pattern that is wrapped matches a text when the
  expression that it denotes does;
* `Tessera.Pattern.standard_accepts_iff` — the texts that the standard engine accepts for a pattern;
* `Tessera.Engine.standard_lawful` — **the standard engine keeps its laws**.
-/

import Tessera.Proofs.Grammar.Templates

set_option autoImplicit false

namespace Tessera

namespace Pattern

variable {text w u v : List Char} {r R : Regex}

/-! ### Wrapped patterns -/

/-- The expression of a pattern that is written down is the one that it denotes. -/
theorem Written.eq_of_ofText? (h : Written text r) (hR : Regex.ofText? text = some R) : R = r := by
  simp only [Regex.ofText?, Option.bind_eq_bind, Option.bind_eq_some_iff] at hR
  obtain ⟨a, hparse, ⟨R', m⟩, hregex, heq⟩ := hR
  cases heq
  have hrun := runs_of_parse? hparse
  rw [← List.append_nil text] at hrun
  obtain ⟨l, names, hend, hdenotes⟩ := h [] [] [] a .text hrun
  have htree : l.tree = a := by
    simpa [Reading.finish] using (Runs.nil_iff (r := ⟨l, [], names⟩) skipBlanks_nil).1 hend
  exact hdenotes R' m (htree ▸ hregex)

theorem regex?_wrapped (a : Ast) :
    Ast.regex? Mode.start (.concat [.anchor .textStart, .group [] a, .anchor .textEnd]) =
      (a.regex? Mode.start).map fun p =>
        (.seq (.look .textStart) (.seq p.1 (.look .textEnd)), Mode.start) := by
  have hset : Mode.start.set [] = Mode.start := rfl
  simp only [Ast.regex?, Ast.regexList?, Option.bind_eq_bind, Option.bind_some, hset]
  cases a.regex? Mode.start <;> rfl

/-- A wrapped pattern matches somewhere in a text when all of the text is a span of the pattern. -/
theorem span_wrapped_iff :
    (∃ i j, i ≤ w.length ∧
      Regex.Span w (.seq (.look .textStart) (.seq r (.look .textEnd))) i j) ↔
      Regex.Span w r 0 w.length := by
  constructor
  · rintro ⟨i, j, hi, _, ⟨rfl, -, hstart⟩, k, hr, rfl, hk, hend⟩
    have hzero : i = 0 := by
      by_contra hpos
      obtain ⟨i, rfl⟩ := Nat.exists_eq_succ_of_ne_zero hpos
      simp [Regex.LookAt, Look.holds] at hstart
      omega
    have hlength : k = w.length := by
      simp [Regex.LookAt, Look.holds] at hend
      omega
    rwa [hzero, hlength] at hr
  · intro hr
    refine ⟨0, w.length, Nat.zero_le _, 0, ⟨rfl, Nat.zero_le _, rfl⟩, w.length, hr, rfl,
      Nat.le_refl _, ?_⟩
    simp [Regex.LookAt, Look.holds]

theorem ofText?_of_compile? (hR : Regex.compile? text = some R) : Regex.ofText? text = some R :=
  (Option.filter_eq_some_iff.1 hR).1

/-- The wrapped pattern of what compiles can be read. -/
theorem isSome_parse?_of_whole? (hwhole : (Engine.standard.whole? text).isSome) :
    (Ast.parse? (wrapWhole text)).isSome := by
  obtain ⟨isMatch, hwhole⟩ := Option.isSome_iff_exists.1 hwhole
  obtain ⟨R, hR, -⟩ := Option.map_eq_some_iff.1 hwhole
  have hread := ofText?_of_compile? hR
  simp only [Regex.ofText?, Option.bind_eq_bind, Option.bind_eq_some_iff] at hread
  obtain ⟨b, hparse, -⟩ := hread
  exact Option.isSome_iff_exists.2 ⟨b, hparse⟩

/-- The expression of a wrapped pattern is the one that the pattern denotes between the ends of the
text. -/
theorem Written.eq_of_wrapped (h : Written text r) (hR : Regex.ofText? (wrapWhole text) = some R) :
    R = .seq (.look .textStart) (.seq r (.look .textEnd)) := by
  simp only [Regex.ofText?, Option.bind_eq_bind, Option.bind_eq_some_iff] at hR
  obtain ⟨b, hparse, ⟨R', m⟩, hregex, heq⟩ := hR
  cases heq
  have hanchor : Runs ⟨(Level.start false).push (.anchor .textStart), [], []⟩
      ('(' :: '?' :: ':' :: (text ++ [')', '\\', 'z'])) b :=
    (Runs.step_iff (r := ⟨.start false, [], []⟩) rfl rfl).1 (runs_of_parse? hparse)
  obtain ⟨l, names, hclose, hdenotes⟩ :=
    h _ [] _ b (.group _ [] ['\\', 'z']) ((runs_open rfl).1 hanchor)
  have hend := runs_close.1 hclose
  have hfinish : Runs ⟨_, [], names⟩ [] b :=
    (Runs.step_iff (r := ⟨_, [], names⟩) rfl rfl).1 hend
  have htree : b = .concat [.anchor .textStart, .group [] l.tree, .anchor .textEnd] :=
    (Option.some.inj ((Runs.nil_iff (r := ⟨_, [], names⟩) rfl).1 hfinish)).symm
  rw [htree, regex?_wrapped] at hregex
  obtain ⟨⟨r', m'⟩, hr, heq⟩ := Option.map_eq_some_iff.1 hregex
  cases heq
  rw [hdenotes r' m' hr]

/-- **A written pattern that is wrapped matches a text when all of the text is a span.** -/
theorem Written.occursIn_iff (h : Written text r)
    (hR : Regex.compile? (wrapWhole text) = some R) :
    R.occursIn w = true ↔ Regex.Span w r 0 w.length := by
  have hread := ofText?_of_compile? hR
  rw [Regex.occursIn_iff w (Regex.bounded_of_ofText? hread), h.eq_of_wrapped hread,
    span_wrapped_iff]

/-! ### Patterns of the standard engine -/

theorem hasLook_eq_false_iff : r.hasLook = false ↔ r.LookFree := by
  induction r with
  | empty => simp [Regex.hasLook, Regex.LookFree]
  | set s => simp [Regex.hasLook, Regex.LookFree]
  | look l => simp [Regex.hasLook, Regex.LookFree]
  | seq a b iha ihb => simp [Regex.hasLook, Regex.LookFree, iha, ihb]
  | alt a b iha ihb => simp [Regex.hasLook, Regex.LookFree, iha, ihb]
  | repeated r min max ih => exact ih

theorem freeOfLooks_iff :
    Engine.standard.looks text = false ↔ Template.FreeOfLooks text := by
  simp only [Engine.standard, Option.any_eq_false, hasLook_eq_false_iff]
  rfl

/-- A pattern that the standard engine compiles can be read alone and in groups. -/
theorem readsAlone_of_whole? (hread : Engine.standard.reads text = true)
    (hwhole : (Engine.standard.whole? text).isSome) : Template.ReadsAlone text :=
  ⟨hread, isSome_parse?_of_whole? hwhole⟩

/-- **The standard engine accepts a text for a pattern when all of it is a span** of the expression
that the pattern denotes, whatever conditions on positions there are. -/
theorem standard_accepts_iff (hr : Regex.ofText? text = some r)
    (hwhole : (Engine.standard.whole? text).isSome) :
    Engine.standard.Accepts text w ↔ Regex.Span w r 0 w.length := by
  have hread : Engine.standard.reads text = true := Option.isSome_iff_exists.2 ⟨r, hr⟩
  have hwritten := Template.written_pattern (readsAlone_of_whole? hread hwhole)
  rw [Template.regex, hr, Option.getD_some] at hwritten
  obtain ⟨isMatch, hmatch⟩ := Option.isSome_iff_exists.1 hwhole
  obtain ⟨R, hR, rfl⟩ := Option.map_eq_some_iff.1 hmatch
  rw [← hwritten.occursIn_iff hR]
  constructor
  · rintro ⟨isMatch, hmatch', h⟩
    cases hmatch.symm.trans hmatch'
    exact h
  · exact fun h => ⟨_, hmatch, h⟩

theorem agrees_of_plain (h : Engine.standard.Plain text) :
    Template.Agrees Engine.standard text := by
  obtain ⟨r, hr⟩ := Option.isSome_iff_exists.1 h.reads
  funext w
  rw [Template.regex, hr, Option.getD_some, standard_accepts_iff hr h.compiles,
    Regex.span_whole_iff (freeOfLooks_iff.1 h.lookFree r hr)]

/-! ### Scans -/

/-- Forward the positions that are shown are the ends of prefixes that are spans. -/
theorem scan_forward_iff (hr : r.Bounded) {shows : Nat → Bool}
    (h : r.scan .forward (u ++ v) = some shows) :
    shows (byteLength u) = true ↔ Regex.Span (u ++ v) r 0 u.length := by
  cases h
  rw [getD_flagged (by simp), byteLength_mem_offsetsOf, Regex.shown,
    Regex.testBit_endsFromStart _ hr]

/-- Backward the positions that are shown are the beginnings of suffixes that are spans. -/
theorem scan_backward_iff (hr : r.Bounded) {shows : Nat → Bool}
    (h : r.scan .backward (u ++ v) = some shows) :
    shows (byteLength u) = true ↔ Regex.Span (u ++ v) r u.length (u ++ v).length := by
  cases h
  rw [getD_flagged (by simp), byteLength_mem_offsetsOf, Regex.shown,
    Regex.testBit_startsToEnd _ hr]

end Pattern

/-! ### Laws -/

namespace Engine

open Pattern

variable {t : Template}

/-- A template of plain patterns is read as its expression, which has a language. -/
theorem standard_template (ht : t.Wellformed standard.Plain) :
    Written t.toText t.regex ∧ t.regex.LookFree ∧ t.regex.Matches = t.Matches standard :=
  ⟨Template.written_regex t (.mono (fun _ h => readsAlone_of_whole? h.reads h.compiles) t ht),
    Template.regex_lookFree t (.mono (fun _ h => freeOfLooks_iff.1 h.lookFree) t ht),
    Template.matches_regex t (.mono (fun _ h => agrees_of_plain h) t ht)⟩

/-- The expression behind a scan of the standard engine. -/
theorem exists_of_scan? {limit : Nat} {d : Direction} {pattern : Text} {scan : Scan}
    (h : standard.scan? limit d pattern = some scan) :
    ∃ r, Regex.ofText? pattern = some r ∧ r.Bounded ∧ scan = r.scan d := by
  obtain ⟨r, hr, rfl⟩ := Option.map_eq_some_iff.1 h
  have hread := (Option.filter_eq_some_iff.1 hr).1
  exact ⟨r, hread, Regex.bounded_of_ofText? hread, rfl⟩

/-- **The standard engine keeps its laws.** -/
theorem standard_lawful : standard.Lawful where
  whole t ht isMatch hmatch w := by
    obtain ⟨hwritten, hfree, hmatches⟩ := standard_template ht
    obtain ⟨R, hR, rfl⟩ := Option.map_eq_some_iff.1 hmatch
    rw [hwritten.occursIn_iff hR, Regex.span_whole_iff hfree, hmatches]
  forward t ht limit scan hscan u v shows hshows := by
    obtain ⟨hwritten, hfree, hmatches⟩ := standard_template ht
    obtain ⟨r, hread, hbounded, rfl⟩ := exists_of_scan? hscan
    obtain rfl := hwritten.eq_of_ofText? hread
    rw [scan_forward_iff hbounded hshows, Regex.span_prefix_iff hfree, hmatches]
  backward t ht limit scan hscan u v shows hshows := by
    obtain ⟨hwritten, hfree, hmatches⟩ := standard_template ht
    obtain ⟨r, hread, hbounded, rfl⟩ := exists_of_scan? hscan
    obtain rfl := hwritten.eq_of_ofText? hread
    rw [scan_backward_iff hbounded hshows, Regex.span_suffix_iff hfree, hmatches]

end Engine

end Tessera
