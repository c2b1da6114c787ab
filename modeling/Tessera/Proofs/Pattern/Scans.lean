/-
**Scans find what probing finds.**

There are several ways to find the prefixes and the suffixes that a pattern matches: one pass over
the text, a scan with an automaton, and trying every boundary of the text.  For a pattern without
conditions on positions they all find the same, namely what the exact matcher of whole texts says of
every prefix and of every suffix.

An automaton that shows its matches one byte late has shown, after each byte, whether the bytes before
it match; so a scan lists the number of bytes of every match.  Nothing is known of what it shows inside
a character, and nothing has to be: only boundaries are kept.  Backward the same holds of the suffix
that has been read.

Main definitions:

* `Tessera.Matcher.Exact` — prefixes and suffixes are found exactly as whole texts are matched;
* `Tessera.Automaton.Recognises` — what is relied on of an automaton for a language.

Main results:

* `Tessera.Automaton.Recognises.mem_scan` — **a scan finds every match and nothing else**;
* `Tessera.Matcher.ofAutomata_eq` — **a matcher with automata is the matcher of their scans**;
* `Tessera.Pattern.exact_ofPattern` — the matcher of a pattern is exact;
* `Tessera.scans_agree` — **all ways to find prefixes and suffixes agree**.
-/

import Mathlib.Data.List.Sort
import Tessera.Pattern.Scan
import Tessera.Proofs.Grammar.Standard

set_option autoImplicit false

namespace Tessera

open Pattern

/-! ### Exact matchers -/

/-- Prefixes and suffixes are found exactly as whole texts are matched. -/
structure Matcher.Exact (m : Matcher) : Prop where
  ascending : ∀ text, (m.prefixEnds text).Pairwise (· < ·)
  mem_prefixEnds : ∀ text e,
    e ∈ m.prefixEnds text ↔ IsBoundary text e ∧ m.whole (takeBytes e text) = true
  size_suffixStarts : ∀ text, (m.suffixStarts text).size = byteLength text + 1
  suffixStarts : ∀ text, ∀ s ≤ byteLength text,
    ((m.suffixStarts text).getD s false = true ↔
      IsBoundary text s ∧ m.whole (dropBytes s text) = true)

/-- Flags for all offsets up to `size` are the same when they are set for the same offsets. -/
theorem flags_ext {size : Nat} {flags flags' : Array Bool} (hsize : flags.size = size + 1)
    (hsize' : flags'.size = size + 1)
    (h : ∀ n ≤ size, (flags.getD n false = true ↔ flags'.getD n false = true)) : flags = flags' := by
  refine Array.ext (hsize.trans hsize'.symm) fun n hn hn' => ?_
  have hiff := h n (by omega)
  rw [Array.getD_eq_getD_getElem?, Array.getD_eq_getD_getElem?, Array.getElem?_eq_getElem hn,
    Array.getElem?_eq_getElem hn', Option.getD_some, Option.getD_some] at hiff
  exact Bool.eq_iff_iff.2 hiff

/-- Exact matchers that match the same whole texts give the same answers. -/
theorem Matcher.Exact.eq {m m' : Matcher} (h : m.Exact) (h' : m'.Exact) (hwhole : m.whole = m'.whole) :
    m = m' := by
  have hends : m.prefixEnds = m'.prefixEnds := by
    funext text
    refine (h.ascending text).eq_of_mem_iff (h'.ascending text) fun e => ?_
    rw [h.mem_prefixEnds, h'.mem_prefixEnds, hwhole]
  have hstarts : m.suffixStarts = m'.suffixStarts := by
    funext text
    refine flags_ext (h.size_suffixStarts text) (h'.size_suffixStarts text) fun s hs => ?_
    rw [h.suffixStarts text s hs, h'.suffixStarts text s hs, hwhole]
  cases m
  cases m'
  cases hwhole
  cases hends
  cases hstarts
  rfl

/-- Where every scan shows what matches, exactly the boundaries are found at which the part matches. -/
theorem mem_found_iff {exact : Option (Text → Bool)} {part : Nat → Text → Text} {scan : Option Scan}
    (hshows : ∀ s u v shows, scan = some s → s (u ++ v) = some shows →
      (shows (byteLength u) = true ↔ wholeMatch exact (part (byteLength u) (u ++ v)) = true))
    {text : Text} {n : Nat} :
    n ∈ found exact part scan text ↔ IsBoundary text n ∧ wholeMatch exact (part n text) = true := by
  rw [mem_found]
  refine and_congr_right fun hn => ?_
  obtain ⟨u, v, rfl, rfl⟩ := isBoundary_iff.1 hn
  split
  · next shows hscan =>
    obtain ⟨s, hs, hscan⟩ := Option.bind_eq_some_iff.1 hscan
    exact hshows s u v shows hs hscan
  · exact Iff.rfl

/-- **A matcher is exact when its scans show what matches.** -/
theorem Matcher.exact_ofScans {exact : Option (Text → Bool)} {forward backward : Option Scan}
    (hforward : ∀ s u v shows, forward = some s → s (u ++ v) = some shows →
      (shows (byteLength u) = true ↔ wholeMatch exact u = true))
    (hbackward : ∀ s u v shows, backward = some s → s (u ++ v) = some shows →
      (shows (byteLength u) = true ↔ wholeMatch exact v = true)) :
    (Matcher.ofScans exact forward backward).Exact where
  ascending text := (found_ascending exact takeBytes forward text).pairwise
  mem_prefixEnds text n := by
    apply mem_found_iff
    intro s u v shows hs hscan
    rw [takeBytes_append]
    exact hforward s u v shows hs hscan
  size_suffixStarts text := size_flagged _ _
  suffixStarts text n hn := by
    rw [Matcher.ofScans, getD_flagged hn]
    apply mem_found_iff
    intro s u v shows hs hscan
    rw [dropBytes_append]
    exact hbackward s u v shows hs hscan

/-! ### The standard engine -/

namespace Pattern

variable {pattern : Text} {r : Regex}

/-- A pattern without conditions that has a meaning matches the whole texts of its language. -/
theorem wholeMatch_iff (hcompiles : (Engine.standard.whole? pattern).isSome)
    (hr : Regex.ofText? pattern = some r) (hfree : r.LookFree) {w : Text} :
    wholeMatch (Engine.standard.whole? pattern) w = true ↔ r.Matches w := by
  rw [← Regex.span_whole_iff hfree, ← standard_accepts_iff hr hcompiles, Engine.Accepts]
  obtain ⟨isMatch, hmatch⟩ := Option.isSome_iff_exists.1 hcompiles
  rw [hmatch]
  simp [wholeMatch]

/-- **The matcher of a pattern without conditions is exact.** -/
theorem exact_ofPattern (hcompiles : (Engine.standard.whole? pattern).isSome)
    (hfree : Template.FreeOfLooks pattern) : (Matcher.ofPattern .standard pattern).Exact := by
  apply Matcher.exact_ofScans
  · intro scan u v shows hscan hshows
    obtain ⟨r, hr, hbounded, rfl⟩ := Engine.exists_of_scan? hscan
    rw [scan_forward_iff hbounded hshows, Regex.span_prefix_iff (hfree r hr),
      wholeMatch_iff hcompiles hr (hfree r hr)]
  · intro scan u v shows hscan hshows
    obtain ⟨r, hr, hbounded, rfl⟩ := Engine.exists_of_scan? hscan
    rw [scan_backward_iff hbounded hshows, Regex.span_suffix_iff (hfree r hr),
      wholeMatch_iff hcompiles hr (hfree r hr)]

end Pattern

/-! ### Automata -/

namespace Automaton

variable {a : Automaton} {s : a.State} {bytes u : List UInt8} {read : Nat} {ends : List Nat}

/-- The state after some bytes. -/
def run (a : Automaton) (s : a.State) (bytes : List UInt8) : a.State := bytes.foldl a.next s

/-- None of the bytes leads to a quit state. -/
def Quiet (a : Automaton) : a.State → List UInt8 → Prop
  | _, [] => True
  | s, b :: bs => a.isQuit (a.next s b) = false ∧ Quiet a (a.next s b) bs

/-- What is relied on of the kinds of states: all that matter ask for attention, a quit state shows no
match, and no match follows a dead state. -/
structure Marked (a : Automaton) : Prop where
  special : ∀ s, a.isSpecial s = false →
    a.isMatch s = false ∧ a.isDead s = false ∧ a.isQuit s = false
  quit : ∀ s, a.isQuit s = true → a.isMatch s = false
  dead : ∀ s, a.isDead s = true →
    a.isMatch s = false ∧ a.isQuit s = false ∧ a.isMatch (a.finish s) = false
  dead_next : ∀ s b, a.isDead s = true → a.isDead (a.next s b) = true

/-- What is relied on of an automaton for a language: it has read a text, in its own direction, and
the next byte, or the end, shows whether the text is in the language, unless the automaton gave up. -/
structure Recognises (a : Automaton) (spelling : Text → List UInt8) (L : Text → Prop) : Prop
    extends a.Marked where
  late : ∀ s, a.start = some s → ∀ w b, a.Quiet s (spelling w ++ [b]) →
    (a.isMatch (a.run s (spelling w ++ [b])) = true ↔ L w)
  last : ∀ s, a.start = some s → ∀ w, a.Quiet s (spelling w) →
    (a.isMatch (a.finish (a.run s (spelling w))) = true ↔ L w)

theorem run_cons (b : UInt8) (bs : List UInt8) : a.run s (b :: bs) = a.run (a.next s b) bs := rfl

theorem run_append (u v : List UInt8) : a.run s (u ++ v) = a.run (a.run s u) v := List.foldl_append

theorem Quiet.left {v : List UInt8} (h : a.Quiet s (u ++ v)) : a.Quiet s u := by
  induction u generalizing s with
  | nil => trivial
  | cons b u ih => exact ⟨h.1, ih h.2⟩

/-- A scan stops with a byte, or it lists what is shown later, perhaps after a match. -/
theorem scanFrom_cons_cases {b : UInt8} {bs : List UInt8}
    (h : a.scanFrom s read (b :: bs) = some ends) :
    ends = [] ∨ ∃ later, a.scanFrom (a.next s b) (read + 1) bs = some later ∧
      (ends = later ∨ ends = read :: later) := by
  simp only [scanFrom] at h
  split at h
  · exact .inr ⟨ends, h, .inl rfl⟩
  · split at h
    · obtain ⟨later, hlater, rfl⟩ := Option.map_eq_some_iff.1 h
      exact .inr ⟨later, hlater, .inr rfl⟩
    · split at h
      · exact .inl (Option.some.inj h).symm
      · split at h
        · cases h
        · exact .inr ⟨ends, h, .inl rfl⟩

/-- A scan lists numbers of bytes in ascending order, up to the number of all bytes. -/
theorem scanFrom_ascending (h : a.scanFrom s read bytes = some ends) :
    Ascending read ends ∧ ∀ e ∈ ends, e ≤ read + bytes.length := by
  induction bytes generalizing s read ends with
  | nil =>
      rw [scanFrom] at h
      obtain rfl := Option.some.inj h
      split
      · exact ⟨⟨List.pairwise_singleton _ _, by simp⟩, by simp⟩
      · exact ⟨⟨.nil, by simp⟩, by simp⟩
  | cons b bs ih =>
      rcases scanFrom_cons_cases h with rfl | ⟨later, hlater, hends⟩
      · exact ⟨⟨.nil, by simp⟩, by simp⟩
      · obtain ⟨⟨hpairwise, hle⟩, hbound⟩ := ih hlater
        have hlt : ∀ e ∈ later, read < e := hle
        have hmem : ∀ e ∈ ends, e = read ∨ e ∈ later := by
          rcases hends with rfl | rfl
          · exact fun e he => .inr he
          · exact fun e he => List.mem_cons.1 he
        refine ⟨⟨?_, fun e he => ?_⟩, fun e he => ?_⟩
        · rcases hends with rfl | rfl
          · exact hpairwise
          · exact .cons hlt hpairwise
        · rcases hmem e he with rfl | he
          · exact Nat.le_refl _
          · exact Nat.le_of_lt (hlt e he)
        · rw [List.length_cons]
          rcases hmem e he with rfl | he
          · omega
          · have := hbound e he
            omega

namespace Marked

variable (h : a.Marked)
include h

/-- After a dead state there are dead states only. -/
theorem dead_run (hdead : a.isDead s = true) (bytes : List UInt8) :
    a.isDead (a.run s bytes) = true ∧ a.Quiet s bytes := by
  induction bytes generalizing s with
  | nil => exact ⟨hdead, trivial⟩
  | cons b bs ih =>
      have hnext := h.dead_next s b hdead
      exact ⟨(ih hnext).1, (h.dead _ hnext).2.1, (ih hnext).2⟩

/-- What a scan does with one byte: it goes on, with or without a match, or it stops in a dead state. -/
theorem scanFrom_cons {b : UInt8} {bs : List UInt8} (hscan : a.scanFrom s read (b :: bs) = some ends) :
    (∃ later, a.scanFrom (a.next s b) (read + 1) bs = some later ∧ a.isQuit (a.next s b) = false ∧
        ends = if a.isMatch (a.next s b) then read :: later else later) ∨
      a.isDead (a.next s b) = true ∧ ends = [] := by
  simp only [scanFrom] at hscan
  split at hscan
  · next hspecial =>
    obtain ⟨hmatch, -, hquit⟩ := h.special _ (by simpa using hspecial)
    exact .inl ⟨ends, hscan, hquit, by simp [hmatch]⟩
  · split at hscan
    · next hmatch =>
      obtain ⟨later, hlater, rfl⟩ := Option.map_eq_some_iff.1 hscan
      have hquit : a.isQuit (a.next s b) = false := by
        by_contra hquit
        rw [h.quit _ (by simpa using hquit)] at hmatch
        cases hmatch
      exact .inl ⟨later, hlater, hquit, by simp [hmatch]⟩
    · next hmatch =>
      split at hscan
      · next hdead => exact .inr ⟨hdead, (Option.some.inj hscan).symm⟩
      · split at hscan
        · cases hscan
        · next hquit => exact .inl ⟨ends, hscan, by simpa using hquit, by simp [hmatch]⟩

/-- A scan that does not give up comes to no quit state, and lists after how many bytes the next one,
or the end, shows a match. -/
theorem mem_scanFrom (hscan : a.scanFrom s read bytes = some ends) :
    a.Quiet s bytes ∧
    (∀ u b v, bytes = u ++ b :: v →
      (read + u.length ∈ ends ↔ a.isMatch (a.run s (u ++ [b])) = true)) ∧
    (read + bytes.length ∈ ends ↔ a.isMatch (a.finish (a.run s bytes)) = true) := by
  induction bytes generalizing s read ends with
  | nil =>
      rw [scanFrom] at hscan
      obtain rfl := Option.some.inj hscan
      refine ⟨trivial, fun u b v hcut => by simp at hcut, ?_⟩
      simp [run]
  | cons b bs ih =>
      rcases h.scanFrom_cons hscan with ⟨later, hlater, hquit, hends⟩ | ⟨hdead, rfl⟩
      · obtain ⟨hquiet, hinside, hlast⟩ := ih hlater
        have hlt : ∀ e ∈ later, read < e := fun e he => (scanFrom_ascending hlater).1.le e he
        have hmem : ∀ n, read + 1 + n ∈ ends ↔ read + 1 + n ∈ later := by
          intro n
          rw [hends]
          split
          · rw [List.mem_cons]
            exact or_iff_right (by omega)
          · rfl
        refine ⟨⟨hquit, hquiet⟩, fun u c v hcut => ?_, ?_⟩
        · cases u with
          | nil =>
              obtain ⟨rfl, rfl⟩ := List.cons.inj hcut
              rw [hends]
              have hnew : read ∉ later := fun hread => Nat.lt_irrefl _ (hlt _ hread)
              by_cases hmatch : a.isMatch (a.next s b) = true <;> simp [run, hmatch, hnew]
          | cons c' u =>
              obtain ⟨rfl, hrest⟩ := List.cons.inj hcut
              have hshift : read + (b :: u).length = read + 1 + u.length := by
                rw [List.length_cons]
                omega
              rw [hshift, hmem]
              exact hinside u c v hrest
        · have hshift : read + (b :: bs).length = read + 1 + bs.length := by
            rw [List.length_cons]
            omega
          rw [hshift, hmem]
          exact hlast
      · have hdead' := fun v => (h.dead_run hdead v).1
        refine ⟨⟨(h.dead _ hdead).2.1, (h.dead_run hdead bs).2⟩, fun u c v hcut => ?_, ?_⟩
        · have hrun : a.isDead (a.run s (u ++ [c])) = true := by
            cases u with
            | nil =>
                obtain ⟨rfl, rfl⟩ := List.cons.inj hcut
                exact hdead
            | cons c' u =>
                obtain ⟨rfl, -⟩ := List.cons.inj hcut
                exact hdead' _
          simp [(h.dead _ hrun).1]
        · simp [run_cons, (h.dead _ (hdead' bs)).2.2]

end Marked

/-- **A scan finds every match and nothing else.** -/
theorem Recognises.mem_scan {spelling : Text → List UInt8} {L : Text → Prop}
    (h : a.Recognises spelling L) (hscan : a.scan bytes = some ends) {w : Text} {rest : List UInt8}
    (hbytes : bytes = spelling w ++ rest) : (spelling w).length ∈ ends ↔ L w := by
  obtain ⟨s, hstart, hscan⟩ := Option.bind_eq_some_iff.1 hscan
  obtain ⟨hquiet, hinside, hlast⟩ := h.toMarked.mem_scanFrom hscan
  cases rest with
  | nil =>
      obtain rfl : bytes = spelling w := by rw [hbytes, List.append_nil]
      rw [← h.last s hstart w hquiet, ← hlast, Nat.zero_add]
  | cons b rest =>
      have hcut : bytes = (spelling w ++ [b]) ++ rest := by simp [hbytes]
      rw [hcut] at hquiet
      rw [← h.late s hstart w b hquiet.left, ← hinside _ b rest hbytes, Nat.zero_add]

/-! ### Scans of texts -/

theorem bytesOf_append (xs ys : Text) : bytesOf (xs ++ ys) = bytesOf xs ++ bytesOf ys :=
  List.flatMap_append

@[simp] theorem length_bytesOf (text : Text) : (bytesOf text).length = byteLength text := by
  induction text with
  | nil => rfl
  | cons c cs ih =>
      rw [byteLength_cons, ← ih, ← String.length_utf8EncodeChar, ← List.length_append]
      rfl

/-- The bytes of a text from the last to the first. -/
def backward (text : Text) : List UInt8 := (bytesOf text).reverse

variable {L : Text → Prop} {xs ys : Text}

/-- At boundaries a forward scan finds the prefixes in the language. -/
theorem Recognises.mem_scanForward (h : a.Recognises bytesOf L)
    (hscan : a.scanForward (xs ++ ys) = some ends) : byteLength xs ∈ ends ↔ L xs := by
  rw [← length_bytesOf]
  exact h.mem_scan hscan (bytesOf_append xs ys)

/-- At boundaries a backward scan finds the suffixes in the language. -/
theorem Recognises.mem_scanReverse (h : a.Recognises backward L)
    (hscan : a.scanReverse (xs ++ ys) = some ends) : byteLength xs ∈ ends ↔ L ys := by
  obtain ⟨reads, hreads, rfl⟩ := Option.map_eq_some_iff.1 hscan
  have hbytes : (bytesOf (xs ++ ys)).reverse = backward ys ++ backward xs := by
    rw [bytesOf_append, List.reverse_append]
    rfl
  have hlength : (backward ys).length = byteLength ys := by
    rw [backward, List.length_reverse, length_bytesOf]
  have hbound : ∀ n ∈ reads, n ≤ byteLength (xs ++ ys) := by
    obtain ⟨s, -, hscan⟩ := Option.bind_eq_some_iff.1 hreads
    simpa using (scanFrom_ascending hscan).2
  rw [← h.mem_scan hreads hbytes, hlength, List.mem_map]
  rw [byteLength_append] at hbound ⊢
  constructor
  · rintro ⟨n, hn, hsum⟩
    have := hbound n hn
    obtain rfl : n = byteLength ys := by omega
    exact hn
  · exact fun hn => ⟨_, hn, by omega⟩

end Automaton

/-! ### Matchers with automata -/

section Automata

variable {exact : Option (Text → Bool)} {part : Nat → Text → Text} {text : Text}

/-- Of what a scan lists only the boundaries are kept; when it gives up, all are tried. -/
theorem mem_kept {listed : Option (List Nat)} {n : Nat} :
    n ∈ (listed.getD (probe exact part text)).filter (fun e => decide (IsBoundary text e)) ↔
      IsBoundary text n ∧ match listed with
        | some ends => n ∈ ends
        | none => wholeMatch exact (part n text) = true := by
  rw [List.mem_filter, decide_eq_true_eq, and_comm]
  refine and_congr_right fun hn => ?_
  cases listed with
  | none => exact List.mem_filter.trans (and_iff_right (mem_boundaries_zero.2 hn))
  | some ends => exact Iff.rfl

/-- What is kept of the offsets that a scan lists is what is found with the scan that shows them. -/
theorem mem_kept_iff_mem_found {a : Option Automaton} {list : Automaton → Text → Option (List Nat)}
    {n : Nat} :
    n ∈ ((a.bind fun a => list a text).getD (probe exact part text)).filter
        (fun e => decide (IsBoundary text e)) ↔
      n ∈ found exact part (a.map fun a text => (list a text).map fun ends e => ends.contains e)
        text := by
  rw [mem_kept, mem_found]
  refine and_congr_right fun _ => ?_
  cases a with
  | none => exact Iff.rfl
  | some a =>
      simp only [Option.bind_some, Option.map_some]
      cases list a text with
      | none => exact Iff.rfl
      | some ends => exact List.contains_iff_mem.symm

theorem flagged_congr {size : Nat} {offsets offsets' : List Nat}
    (h : ∀ n, n ∈ offsets ↔ n ∈ offsets') : flagged size offsets = flagged size offsets' :=
  flags_ext (size_flagged _ _) (size_flagged _ _) fun n hn => by
    rw [getD_flagged hn, getD_flagged hn, h]

/-- **A matcher with automata is the matcher of their scans**, whatever the automata are. -/
theorem Matcher.ofAutomata_eq (exact : Option (Text → Bool)) (forward reverse : Option Automaton) :
    Matcher.ofAutomata exact forward reverse =
      Matcher.ofScans exact (forward.map Automaton.forwardScan)
        (reverse.map Automaton.reverseScan) := by
  rw [Matcher.ofAutomata, Matcher.ofScans, Matcher.mk.injEq]
  refine ⟨rfl, funext fun text => ?_, funext fun text => flagged_congr fun n =>
    mem_kept_iff_mem_found⟩
  -- both lists are in order and have the same members
  have hkept : Ascending 0 ((forward.bind fun a => a.scanForward text).getD
      (probe exact takeBytes text)) := by
    cases hscan : forward.bind fun a => a.scanForward text with
    | none => exact (boundaries_ascending 0 text).filter _
    | some ends =>
        obtain ⟨a, -, hscan⟩ := Option.bind_eq_some_iff.1 hscan
        obtain ⟨s, -, hscan⟩ := Option.bind_eq_some_iff.1 hscan
        exact (Automaton.scanFrom_ascending hscan).1
  exact (hkept.filter _).pairwise.eq_of_mem_iff (found_ascending ..).pairwise fun n =>
    mem_kept_iff_mem_found

end Automata

/-! ### All ways agree -/

/-- The library's automaton for one direction, if there is one, recognises the language of the
pattern. -/
def Automaton.IsFor (automaton : Option Automaton) (spelling : Text → List UInt8) (pattern : Text) :
    Prop :=
  ∀ a, automaton = some a → ∃ r, Regex.ofText? pattern = some r ∧ a.Recognises spelling r.Matches

section Agreement

variable {pattern : Text} {forward reverse : Option Automaton}
  (hcompiles : (Engine.standard.whole? pattern).isSome) (hfree : Template.FreeOfLooks pattern)
  (hforward : Automaton.IsFor forward bytesOf pattern)
  (hreverse : Automaton.IsFor reverse Automaton.backward pattern)
include hcompiles hfree hforward hreverse

/-- **The matcher of a pattern with automata is exact**, whether they give up or not. -/
theorem exact_ofAutomata :
    (Matcher.ofAutomata (Engine.standard.whole? pattern) forward reverse).Exact := by
  rw [Matcher.ofAutomata_eq]
  refine Matcher.exact_ofScans (fun scan u v shows hscan hshows => ?_)
    (fun scan u v shows hscan hshows => ?_)
  · obtain ⟨a, ha, rfl⟩ := Option.map_eq_some_iff.1 hscan
    obtain ⟨ends, hends, rfl⟩ := Option.map_eq_some_iff.1 hshows
    obtain ⟨r, hr, hrecognises⟩ := hforward a ha
    rw [List.contains_iff_mem, hrecognises.mem_scanForward hends,
      Pattern.wholeMatch_iff hcompiles hr (hfree r hr)]
  · obtain ⟨a, ha, rfl⟩ := Option.map_eq_some_iff.1 hscan
    obtain ⟨starts, hstarts, rfl⟩ := Option.map_eq_some_iff.1 hshows
    obtain ⟨r, hr, hrecognises⟩ := hreverse a ha
    rw [List.contains_iff_mem, hrecognises.mem_scanReverse hstarts,
      Pattern.wholeMatch_iff hcompiles hr (hfree r hr)]

/-- **All ways to find prefixes and suffixes agree**: a pass over the text, scans with automata, and
trying every boundary.  Only the texts that the pattern matches as a whole play a part, not which of
several ways to match a repetition prefers. -/
theorem scans_agree :
    (Matcher.ofPattern .standard pattern).Exact ∧
    Matcher.ofAutomata (Engine.standard.whole? pattern) forward reverse =
      Matcher.ofPattern .standard pattern ∧
    ∀ pattern', (Engine.standard.whole? pattern').isSome → Template.FreeOfLooks pattern' →
      (∀ w, (Matcher.ofPattern .standard pattern').whole w =
        (Matcher.ofPattern .standard pattern).whole w) →
      Matcher.ofPattern .standard pattern' = Matcher.ofPattern .standard pattern := by
  have hexact := exact_ofPattern hcompiles hfree
  refine ⟨hexact, ?_, fun pattern' hcompiles' hfree' hwhole => ?_⟩
  · exact (exact_ofAutomata hcompiles hfree hforward hreverse).eq hexact rfl
  · exact (exact_ofPattern hcompiles' hfree').eq hexact (funext hwhole)

end Agreement

/-! ### Automata for rows of a character of two bytes -/

/-- How many bytes of a row of two alternating bytes have been read, or that something else has. -/
inductive RowState
  | even
  | odd
  | lost
  deriving DecidableEq

/-- Reads a byte of a row of the bytes `x` and `y` in turn. -/
def RowState.read (x y : UInt8) : RowState → UInt8 → RowState
  | .even, b => if b = x then .odd else .lost
  | .odd, b => if b = y then .even else .lost
  | .lost, _ => .lost

/-- The automaton of such rows.  The second part of a state shows whether what was read before the
last byte was a row. -/
def rowAutomaton (x y : UInt8) : Automaton where
  State := RowState × Bool
  start := some (.even, false)
  next s b := (s.1.read x y b, s.1 == .even)
  finish s := (.lost, s.1 == .even)
  isSpecial s := s.2 || s.1 == .lost
  isMatch s := s.2
  isDead s := !s.2 && s.1 == .lost
  isQuit _ := false

theorem rowAutomaton_run (x y : UInt8) (s : RowState × Bool) (bytes : List UInt8) :
    ((rowAutomaton x y).run s bytes).1 = bytes.foldl (RowState.read x y) s.1 := by
  induction bytes generalizing s with
  | nil => rfl
  | cons b bs ih => exact ih _

/-- The automaton recognises a language whose texts are spelled as rows. -/
theorem rowAutomaton_recognises {x y : UInt8} {spelling : Text → List UInt8} {L : Text → Prop}
    (h : ∀ w, (spelling w).foldl (RowState.read x y) .even = .even ↔ L w) :
    (rowAutomaton x y).Recognises spelling L := by
  -- what is shown with the next byte, and at the end, is whether the bytes before were a row
  have hshown : ∀ s : RowState × Bool, s = (.even, false) → ∀ w,
      (((rowAutomaton x y).run s (spelling w)).1 == .even) = true ↔ L w := by
    rintro s rfl w
    rw [rowAutomaton_run, beq_iff_eq]
    exact h w
  refine ⟨⟨?_, ?_, ?_, ?_⟩, fun s hs w b _ => ?_, fun s hs w _ => ?_⟩
  · rintro ⟨p, shown⟩ hs
    cases shown <;> simp_all [rowAutomaton]
  · rintro s hs
    cases hs
  · rintro ⟨p, shown⟩ hs
    cases p <;> simp_all [rowAutomaton]
  · rintro ⟨p, shown⟩ b hs
    cases p <;> simp_all [rowAutomaton, RowState.read]
  · rw [Automaton.run_append]
    exact hshown s (Option.some.inj hs).symm w
  · exact hshown s (Option.some.inj hs).symm w

theorem foldl_read_lost (x y : UInt8) (bytes : List UInt8) :
    bytes.foldl (RowState.read x y) .lost = .lost := by
  induction bytes with
  | nil => rfl
  | cons b bs ih => exact ih

/-- Of a row two bytes are read, or something is lost. -/
theorem foldl_read_two {x y b b' : UInt8} {bs : List UInt8} :
    (b :: b' :: bs).foldl (RowState.read x y) .even =
      if b = x ∧ b' = y then bs.foldl (RowState.read x y) .even else .lost := by
  rw [List.foldl_cons, List.foldl_cons]
  by_cases hx : b = x
  · by_cases hy : b' = y
    · simp [RowState.read, hx, hy]
    · simp [RowState.read, hx, hy, foldl_read_lost]
  · simp [RowState.read, hx, foldl_read_lost]

theorem ofNat_eq_iff {n : Nat} {b : UInt8} : UInt8.ofNat n = b ↔ n % 256 = b.toNat := by
  rw [← UInt8.toNat_inj, UInt8.toNat_ofNat']

theorem eq_accent_iff {c : Char} : c = 'é' ↔ c.val.toNat = 233 := by
  rw [← Char.val_inj, ← UInt32.toNat_inj]
  rfl

/-- Only one character is spelled with the two bytes, in either direction. -/
theorem read_char (c : Char) :
    (String.utf8EncodeChar c).foldl (RowState.read 0xC3 0xA9) .even =
        (if c = 'é' then .even else .lost) ∧
      (String.utf8EncodeChar c).reverse.foldl (RowState.read 0xA9 0xC3) .even =
        (if c = 'é' then .even else .lost) := by
  simp only [String.utf8EncodeChar, eq_accent_iff]
  generalize c.val.toNat = v
  have hfollow : ∀ n, ¬ UInt8.ofNat (n % 64 + 128) = 0xC3 := by
    intro n
    simp only [ofNat_eq_iff, UInt8.reduceToNat]
    omega
  split
  · have hne : ¬ v = 233 := by omega
    have hfirst : ¬ UInt8.ofNat v = 0xC3 := by simp [ofNat_eq_iff]; omega
    have hlast : ¬ UInt8.ofNat v = 0xA9 := by simp [ofNat_eq_iff]; omega
    simp [RowState.read, hne, hfirst, hlast]
  · split
    · have hiff : UInt8.ofNat (v / 64 % 32 + 192) = 0xC3 ∧ UInt8.ofNat (v % 64 + 128) = 0xA9 ↔
          v = 233 := by
        simp only [ofNat_eq_iff, UInt8.reduceToNat]
        omega
      have hiff' := and_comm.trans hiff
      simp only [List.reverse_cons, List.reverse_nil, List.nil_append, List.singleton_append,
        foldl_read_two, hiff, hiff', List.foldl_nil, and_self]
    · rw [if_neg (by omega : ¬ v = 233)]
      have hthree : ¬ UInt8.ofNat (v / 4096 % 16 + 224) = 0xC3 := by
        simp only [ofNat_eq_iff, UInt8.reduceToNat]
        omega
      have hfour : ¬ UInt8.ofNat (v / 262144 % 8 + 240) = 0xC3 := by
        simp only [ofNat_eq_iff, UInt8.reduceToNat]
        omega
      split
      · simp only [List.reverse_cons, List.reverse_nil, List.nil_append, List.cons_append,
          foldl_read_two, hthree, hfollow, false_and, and_false, if_false, and_self]
      · simp only [List.reverse_cons, List.reverse_nil, List.nil_append, List.cons_append,
          foldl_read_two, hfour, hfollow, false_and, and_false, if_false, and_self]

/-- Rows of the character, in either direction, are spelled as rows of its two bytes. -/
theorem read_text (w : Text) :
    (bytesOf w).foldl (RowState.read 0xC3 0xA9) .even =
        (if w.all (· == 'é') then .even else .lost) ∧
      (Automaton.backward w).foldl (RowState.read 0xA9 0xC3) .even =
        (if w.all (· == 'é') then .even else .lost) := by
  induction w with
  | nil => exact ⟨rfl, rfl⟩
  | cons c cs ih =>
      have hforward : bytesOf (c :: cs) = String.utf8EncodeChar c ++ bytesOf cs := rfl
      have hbackward : Automaton.backward (c :: cs) =
          Automaton.backward cs ++ (String.utf8EncodeChar c).reverse := List.reverse_append
      rw [hforward, hbackward, List.foldl_append, List.foldl_append, (read_char c).1, ih.2,
        List.all_cons]
      by_cases hc : c = 'é'
      · have hbeq : (c == 'é') = true := beq_iff_eq.2 hc
        rw [hbeq, Bool.true_and, if_pos hc, ih.1]
        refine ⟨rfl, ?_⟩
        split
        · rw [(read_char c).2, if_pos hc]
        · exact foldl_read_lost _ _ _
      · have hbeq : (c == 'é') = false := beq_eq_false_iff_ne.2 hc
        rw [hbeq, Bool.false_and, if_neg hc, foldl_read_lost]
        refine ⟨rfl, ?_⟩
        split
        · rw [(read_char c).2, if_neg hc]
          rfl
        · exact foldl_read_lost _ _ _

/-! ### Rows of one character -/

/-- Any number of the letter `é`. -/
def accents : Text := ['é', '*']

theorem accents_read :
    Regex.ofText? accents = some (.repeated (.set (CodePointSet.single 233)) 0 none) := by
  with_unfolding_all rfl

theorem accents_matches {w : Text} :
    (Regex.repeated (.set (CodePointSet.single 233)) 0 none).Matches w ↔ ∀ c ∈ w, c = 'é' := by
  constructor
  · rintro ⟨ws, -, -, hws, rfl⟩ c hc
    obtain ⟨u, hu, hcu⟩ := List.mem_flatten.1 hc
    obtain ⟨x, rfl, hx⟩ := hws u hu
    obtain rfl := List.mem_singleton.1 hcu
    have hx : 233 ≤ c.toNat ∧ c.toNat ≤ 233 := by
      simpa [CodePointSet.single, CodePointSet.contains_range] using hx
    rw [eq_accent_iff]
    exact Nat.le_antisymm hx.2 hx.1
  · intro h
    have hall : ∀ u ∈ w.map fun c => [c],
        (Regex.set (CodePointSet.single 233)).Matches u := by
      intro u hu
      obtain ⟨c, hc, rfl⟩ := List.mem_map.1 hu
      rw [h c hc]
      exact ⟨'é', rfl, rfl⟩
    have hflat : w = (w.map fun c => [c]).flatten := by
      rw [← List.flatMap_def, List.flatMap_singleton']
    exact ⟨_, Nat.zero_le _, by simp, hall, hflat⟩

/-- The forward automaton stops at the first byte of `a` with the empty prefix, and the backward one
finds the suffixes between the characters only. -/
theorem scans_agree_accents :
    (Engine.standard.whole? accents).isSome ∧ Template.FreeOfLooks accents ∧
      Automaton.IsFor (some (rowAutomaton 0xC3 0xA9)) bytesOf accents ∧
      Automaton.IsFor (some (rowAutomaton 0xA9 0xC3)) Automaton.backward accents ∧
      (Matcher.ofPattern .standard accents).Exact ∧
      Matcher.ofAutomata (Engine.standard.whole? accents) (some (rowAutomaton 0xC3 0xA9))
          (some (rowAutomaton 0xA9 0xC3)) = Matcher.ofPattern .standard accents ∧
      Matcher.ofPattern .standard ['é', '*', '?'] = Matcher.ofPattern .standard accents ∧
      (rowAutomaton 0xC3 0xA9).scanForward ['a', 'é', 'é'] = some [0] ∧
      (rowAutomaton 0xA9 0xC3).scanReverse ['a', 'é', 'é'] = some [5, 3, 1] ∧
      (Matcher.ofPattern .standard accents).suffixStarts ['a', 'é', 'é'] =
        #[false, true, false, true, false, true] := by
  have hcompiles : (Engine.standard.whole? accents).isSome := by with_unfolding_all rfl
  have hfree : Template.FreeOfLooks accents := by
    intro r hr
    rw [accents_read] at hr
    obtain rfl := Option.some.inj hr
    trivial
  have hfor : ∀ {a spelling}, a.Recognises spelling (fun w => ∀ c ∈ w, c = 'é') →
      Automaton.IsFor (some a) spelling accents := by
    intro a spelling h a' ha
    obtain rfl := Option.some.inj ha
    refine ⟨_, accents_read, ?_⟩
    have hlanguage : (Regex.repeated (.set (CodePointSet.single 233)) 0 none).Matches =
        fun w => ∀ c ∈ w, c = 'é' := funext fun w => propext accents_matches
    rwa [hlanguage]
  have hforward : Automaton.IsFor (some (rowAutomaton 0xC3 0xA9)) bytesOf accents :=
    hfor (rowAutomaton_recognises fun w => by rw [(read_text w).1]; simp)
  have hreverse : Automaton.IsFor (some (rowAutomaton 0xA9 0xC3)) Automaton.backward accents :=
    hfor (rowAutomaton_recognises fun w => by rw [(read_text w).2]; simp)
  obtain ⟨hexact, hscans, hsame⟩ := scans_agree hcompiles hfree hforward hreverse
  have hlazy : Engine.standard.whole? ['é', '*', '?'] = Engine.standard.whole? accents := by
    with_unfolding_all rfl
  have hlazyFree : Template.FreeOfLooks ['é', '*', '?'] := hfree
  refine ⟨hcompiles, hfree, hforward, hreverse, hexact, hscans,
    hsame _ (hlazy ▸ hcompiles) hlazyFree fun w => ?_, ?_, ?_, ?_⟩
  · simp only [Matcher.ofPattern, Matcher.ofScans, hlazy]
  · rfl
  · rfl
  · with_unfolding_all rfl

end Tessera
