/-
**Pruning changes nothing.**

With pruning, candidates are left out after which the rest of the text cannot match.  Whatever the
search without pruning accepts is a derivation, so the rest of the text after each of its candidates
belongs to the language that the filter there looks for, and the filter allows the candidate.  The
candidates that are left out yield nothing, and those that are kept are tried in the same order:
both searches find the same split.

This takes patterns without conditions on positions.  With such conditions a filter may leave out
too much, but never lets in what the search without pruning rejects.

Main definitions:

* `Tessera.prunedRun` — the search with pruning for the split of a whole text.

Main results:

* `Tessera.Query.follows_allows` — a filter allows every candidate that the rest admits;
* `Tessera.Query.plain_exhaustive` — the plain search finds the same with and without pruning;
* `Tessera.pruning_invisible` — **pruning does not show in the result**.
-/

import Tessera.Proofs.Grammar.Standard
import Tessera.Proofs.Search.Derivations
import Tessera.Proofs.Search.Soundness

set_option autoImplicit false

namespace Tessera

/-! ### Candidates that yield nothing -/

/-- Candidates that yield nothing can be left out. -/
theorem findSome?_filter_eq {α β : Type} {as : List α} {p : α → Bool} {f g : α → Option β}
    (hfg : ∀ a ∈ as, f a = g a) (hp : ∀ a ∈ as, (g a).isSome → p a = true) :
    (as.filter p).findSome? f = as.findSome? g := by
  induction as with
  | nil => rfl
  | cons a as ih =>
      obtain ⟨ha, hfg⟩ := List.forall_mem_cons.1 hfg
      obtain ⟨hpa, hp⟩ := List.forall_mem_cons.1 hp
      rw [List.findSome?_cons, ← ih hfg hp]
      by_cases hkept : p a = true
      · rw [List.filter_cons_of_pos hkept, List.findSome?_cons, ha]
      · have hnone : g a = none := by simpa [hkept] using hpa
        rw [List.filter_cons_of_neg hkept, hnone]

namespace Query

variable {q : Query} {parse parse' : PlainParse} {fuel : Nat}

/-- The two searches of parts find the same over every range. -/
def SameParts (q : Query) (parse parse' : PlainParse) : Prop :=
  ∀ d start stop, IsRange q.text start stop → parse d start stop = parse' d start stop

/-! ### Filters -/

/-- A filter allows a candidate when the text after it belongs to the language of the tail. -/
theorem follows_allows {t : Tail} {L : Text → Prop}
    (hadmits : (q.grammar.acceptors.tail t).Admits L) {start e stop : Nat}
    (hleft : IsRange q.text start e) (hright : IsRange q.text e stop)
    (hrest : L (q.slice e stop)) : (q.follows t start stop).allows e = true := by
  unfold follows
  split
  · have hwhole : q.slice start stop = q.slice start e ++ q.slice e stop :=
      slice_eq_of_slice? (slice?_join hleft.slice? hright.slice?)
    have hlength : e - start = byteLength (q.slice start e) := by
      have : e = start + byteLength (q.slice start e) := slice?_stop hleft.slice?
      omega
    show ((q.grammar.acceptors.tail t).suffixStarts (q.slice start stop)).getD (e - start) false =
      true
    rw [hwhole, hlength]
    exact hadmits.suffixStarts _ _ hrest
  · rfl

/-- Without pruning nothing is filtered. -/
theorem follows_unpruned (h : q.prune = false) (t : Tail) (start stop : Nat) :
    q.follows t start stop = .everywhere := by
  rw [follows, h]
  rfl

theorem sequenceFollows_unpruned (h : q.prune = false) (d : DefId) (count start stop k : Nat) :
    (q.sequenceFollows d count start stop).getD k .everywhere = .everywhere := by
  rw [sequenceFollows, getD_map_range]
  split
  · exact follows_unpruned h _ start stop
  · rfl

theorem loopFollows_unpruned (h : q.prune = false) (d item : DefId) (separator : Option DefId)
    (repetition : Repetition) (start stop : Nat) (trail : List Split) :
    (q.loopPlan d item separator repetition start stop).follows trail = .everywhere := by
  rw [LoopPlan.follows, loopPlan]
  simp only [follows_unpruned h, ite_self]

theorem filter_everywhere (ends : List Nat) : ends.filter Filter.everywhere.allows = ends :=
  List.filter_eq_self.2 fun _ _ => rfl

/-! ### Sequences and choices -/

section Valid

variable (hg : q.grammar.Valid) (hreg : q.grammar.Regular)
include hg hreg

theorem plainSequence_exhaustive (hparse : q.FittingParts parse') (hsame : q.SameParts parse parse')
    {d : DefId} {all : List DefId} (hshape : q.grammar.shape d = .sequence all) {start stop : Nat}
    {items : List DefId} {k cursor : Nat} (hitems : all.drop k = items)
    (hleft : IsRange q.text start cursor) (hright : IsRange q.text cursor stop) :
    q.plainSequence parse stop (q.sequenceFollows d all.length start stop) items k cursor =
      q.exhaustive.plainSequence parse' stop (q.exhaustive.sequenceFollows d all.length start stop) items k
        cursor := by
  induction items generalizing k cursor with
  | nil => rfl
  | cons item items ih =>
      have hk : k < all.length := by
        have := congrArg List.length hitems
        simp only [List.length_drop, List.length_cons] at this
        omega
      have hnext : all.drop (k + 1) = items := by rw [← List.drop_drop, hitems]; rfl
      rw [plainSequence, plainSequence, sequenceFollows_unpruned (q := q.exhaustive) rfl,
        filter_everywhere]
      refine findSome?_filter_eq (fun e he => ?_) (fun e he hs => ?_)
      · obtain ⟨hpart, hrest⟩ := isRange_of_mem_allEnds hg hright (mem_allEnds_of_ends he)
        rw [hsame item cursor e hpart]
        have hall : IsRange q.text start e := ⟨hleft.le.trans hpart.le, hleft.left, hpart.right⟩
        rw [ih hnext hall hrest]
      · -- what is left of the text is a row of texts of the items that are left
        obtain ⟨hpart, hrest⟩ := isRange_of_mem_allEnds hg hright (mem_allEnds_of_ends he)
        have hall : IsRange q.text start e := ⟨hleft.le.trans hpart.le, hleft.left, hpart.right⟩
        obtain ⟨parts, hs⟩ := Option.isSome_iff_exists.1 hs
        obtain ⟨part, -, hs⟩ := Option.bind_eq_some_iff.1 hs
        obtain ⟨rest, hs, -⟩ := Option.map_eq_some_iff.1 hs
        obtain ⟨htiles, hfit⟩ := plainSequence_fits (q := q.exhaustive) hg hparse hrest hs
        rw [sequenceFollows, getD_map_range, if_pos (by omega)]
        refine follows_allows (hg.sequence_tail_admits hreg hshape hk) hall hrest ?_
        rw [hnext]
        exact hfit.inRow hg htiles hrest.left

theorem plainChoice_exhaustive (hparse : q.FittingParts parse') (hsame : q.SameParts parse parse')
    {start stop : Nat} (hrange : IsRange q.text start stop) {alternatives : List DefId}
    {index : Nat} :
    q.plainChoice parse start stop alternatives index =
      q.exhaustive.plainChoice parse' start stop alternatives index := by
  induction alternatives generalizing index with
  | nil => rfl
  | cons a as ih =>
      rw [plainChoice, plainChoice, ih, hsame a start stop hrange]
      split
      · next hskip =>
        -- a derivation would match the pattern of the alternative
        cases hinner : parse' a start stop with
        | none => simp
        | some inner =>
            obtain ⟨hspan, hfits⟩ := hparse a start stop inner hrange hinner
            have hholds : inner.Holds q.text (q.slice start stop) := by
              rw [Split.Holds, hspan]
              exact hrange.slice?
            have hwhole : q.grammar.feasible a (q.slice start stop) = true :=
              (hg.definition_admits hreg a).whole _ (hfits.derives hg hholds)
            simp [hwhole] at hskip
      · rfl

/-! ### Loops -/

omit hg hreg in
/-- The texts of elements that fit make up the text of the range. -/
theorem elements_hold {p : LoopPlan} {trail further : List Split} {cursor stop : Nat}
    (hfit : q.ElementsFit p trail further) (htiles : Tiles cursor stop further)
    (hcursor : IsBoundary q.text cursor) :
    ∃ ws, List.Forall₂ (Split.Holds q.text) further ws ∧ q.slice cursor stop = ws.flatten := by
  have hranges : ∀ s ∈ further, IsRange q.text s.span.start s.span.stop := by
    clear htiles
    induction further generalizing trail with
    | nil => simp
    | cons s further ih => exact List.forall_mem_cons.2 ⟨hfit.1.isRange, ih hfit.2⟩
  obtain ⟨ws, hws, hslice⟩ := htiles.holds hcursor hranges
  exact ⟨ws, hws, slice_eq_of_slice? hslice⟩

omit hreg in
/-- Further elements of a loop are items. -/
theorem elements_repeated {p : LoopPlan} (hseparator : p.separator = none)
    {trail further : List Split} {cursor stop : Nat} (hfit : q.ElementsFit p trail further)
    (htiles : Tiles cursor stop further) (hcursor : IsBoundary q.text cursor) :
    Repeated (q.grammar.Derives p.item) 0 none (q.slice cursor stop) := by
  obtain ⟨ws, hws, hslice⟩ := elements_hold hfit htiles hcursor
  exact ⟨ws, Nat.zero_le _, by simp,
    (fitEach_of_elementsFit hseparator hfit).derives hg hws, hslice⟩

omit hreg in
/-- After an item of a separated loop, separators and items follow in pairs. -/
theorem elements_pairs {p : LoopPlan} {separator : DefId} (hseparator : p.separator = some separator)
    (further : List Split) {trail : List Split} (htrail : trail.length % 2 = 1)
    (heven : further.length % 2 = 0) (hfit : q.ElementsFit p trail further) {ws : List Text}
    (hws : List.Forall₂ (Split.Holds q.text) further ws) :
    Repeated (InRow [q.grammar.Derives separator, q.grammar.Derives p.item]) 0 none ws.flatten := by
  match further with
  | [] =>
      cases hws
      exact ⟨[], by simp⟩
  | [_] => simp at heven
  | s :: t :: further =>
      obtain ⟨hs, ht, hfit⟩ := hfit
      have hnext : (s :: trail).length % 2 = 0 := by simp only [List.length_cons]; omega
      have hafter : (t :: s :: trail).length % 2 = 1 := by simp only [List.length_cons]; omega
      have hrest : further.length % 2 = 0 := by simp only [List.length_cons] at heven; omega
      simp only [LoopPlan.element, LoopPlan.expectsSeparator, hseparator, htrail, hnext] at hs ht
      cases hws with
      | cons hu hws =>
          cases hws with
          | cons hv hws =>
              obtain ⟨us, -, -, hus, hflat⟩ :=
                elements_pairs hseparator further hafter hrest hfit hws
              refine ⟨_ :: us, Nat.zero_le _, by simp, List.forall_mem_cons.2 ⟨?_, hus⟩, by
                rw [List.flatten_cons, List.flatten_cons, hflat, List.flatten_cons,
                  ← List.append_assoc]⟩
              exact inRow_pair.2 ⟨_, _, rfl, hs.derives hg hu, ht.derives hg hv⟩

omit hreg in
/-- After a separator an item follows, and then separators and items in pairs. -/
theorem elements_item_pairs {p : LoopPlan} {separator : DefId}
    (hseparator : p.separator = some separator) {further trail : List Split}
    (htrail : trail.length % 2 = 0) (hodd : further.length % 2 = 1)
    (hfit : q.ElementsFit p trail further) {ws : List Text}
    (hws : List.Forall₂ (Split.Holds q.text) further ws) :
    InRow [q.grammar.Derives p.item,
      Repeated (InRow [q.grammar.Derives separator, q.grammar.Derives p.item]) 0 none]
      ws.flatten := by
  match further with
  | [] => simp at hodd
  | s :: further =>
      obtain ⟨hs, hfit⟩ := hfit
      have hnext : (s :: trail).length % 2 = 1 := by simp only [List.length_cons]; omega
      have hrest : further.length % 2 = 0 := by simp only [List.length_cons] at hodd; omega
      simp only [LoopPlan.element, LoopPlan.expectsSeparator, hseparator, htrail] at hs
      cases hws with
      | cons hu hws =>
          refine inRow_pair.2 ⟨_, _, rfl, hs.derives hg hu, ?_⟩
          exact elements_pairs hg hseparator further hnext hrest hfit hws

/-- What the filter after an element looks for follows it when the loop is completed. -/
theorem loop_follows_allows {d item : DefId} {separator : Option DefId} {repetition : Repetition}
    {start stop : Nat}
    (hshape : q.grammar.Repeats d item separator repetition)
    {trail further : List Split} {s : Split} {e : Nat}
    (hfit : q.exhaustive.ElementsFit (q.exhaustive.loopPlan d item separator repetition start stop) (s :: trail)
      further)
    (htiles : Tiles e stop further)
    (hcomplete : (q.exhaustive.loopPlan d item separator repetition start stop).isComplete
      (further.reverse ++ s :: trail) stop = true)
    (hleft : IsRange q.text start e) (hright : IsRange q.text e stop) :
    (((q.loopPlan d item separator repetition start stop).follows trail).allows e) = true := by
  cases separator with
  | none =>
      have htail := hg.loop_tail_admits hreg hshape
      rw [LoopPlan.follows, if_neg (by simp [LoopPlan.expectsSeparator, loopPlan])]
      exact follows_allows htail hleft hright
        (elements_repeated (q := q.exhaustive) hg rfl hfit htiles hright.left)
  | some separator =>
      obtain ⟨default, hshape⟩ := hshape
      -- the last element is not a separator, so the number of elements is odd
      have hodd : (further.length + (trail.length + 1)) % 2 = 1 := by
        simp only [LoopPlan.isComplete, LoopPlan.endsWithSeparator, LoopPlan.expectsSeparator,
          loopPlan, Bool.and_eq_true] at hcomplete
        simpa using hcomplete.1.2
      obtain ⟨ws, hws, hslice⟩ := elements_hold (q := q.exhaustive) hfit htiles hright.left
      rw [LoopPlan.follows]
      by_cases hexpects : trail.length % 2 = 1
      · have htail := hg.afterSeparator_tail_admits hreg hshape
        rw [if_pos (by simp [LoopPlan.expectsSeparator, loopPlan, hexpects])]
        refine follows_allows htail hleft hright ?_
        have hrest := elements_item_pairs (q := q.exhaustive) hg rfl
          (by simp only [List.length_cons]; omega) (by omega) hfit hws
        rwa [← hslice] at hrest
      · have htail := hg.afterItem_tail_admits hreg hshape
        rw [if_neg (by simp [LoopPlan.expectsSeparator, loopPlan, hexpects])]
        refine follows_allows htail hleft hright ?_
        have hrest := elements_pairs (q := q.exhaustive) hg rfl further
          (by simp only [List.length_cons]; omega) (by omega) hfit hws
        rwa [← hslice] at hrest

omit hg hreg in
/-- With pruning the ends to try are filtered, and nothing else is different. -/
theorem loopEnds_exhaustive {d item : DefId} {separator : Option DefId} {repetition : Repetition}
    {start stop : Nat} {trail : List Split} {cursor : Nat} :
    q.loopEnds (q.loopPlan d item separator repetition start stop) trail cursor =
      (q.exhaustive.loopEnds (q.exhaustive.loopPlan d item separator repetition start stop) trail cursor).filter
        ((q.loopPlan d item separator repetition start stop).follows trail).allows := by
  rw [loopEnds, loopEnds, loopFollows_unpruned (q := q.exhaustive) rfl, filter_everywhere]
  rfl

theorem plainExtend_exhaustive (hparse : q.FittingParts parse') (hsame : q.SameParts parse parse')
    {d item : DefId} {separator : Option DefId} {repetition : Repetition} {start stop : Nat}
    (hshape : q.grammar.Repeats d item separator repetition) (fuel : Nat) (trail : List Split)
    {cursor : Nat} (hleft : IsRange q.text start cursor) (hright : IsRange q.text cursor stop) :
    q.plainExtend parse (q.loopPlan d item separator repetition start stop) fuel trail cursor =
      q.exhaustive.plainExtend parse' (q.exhaustive.loopPlan d item separator repetition start stop) fuel trail
        cursor := by
  have hwider := (Wider.exhaustive q).loopPlan (Eq.refl (q.grammar.resolve d)) item separator repetition
    start stop
  induction fuel generalizing trail cursor with
  | zero => rfl
  | succ fuel ih =>
      rw [plainExtend, plainExtend, hwider.isComplete, hwider.isFull]
      split
      · rfl
      split
      · rfl
      rw [loopEnds_exhaustive]
      refine findSome?_filter_eq (fun e he => ?_) (fun e he hs => ?_)
      · obtain ⟨hpart, hrest⟩ :=
          isRange_of_mem_allEnds (q := q.exhaustive) hg hright (mem_allEnds_of_loopEnds he)
        have hall : IsRange q.text start e := ⟨hleft.le.trans hpart.le, hleft.left, hpart.right⟩
        rw [hwider.element, hsame _ cursor e hpart]
        exact congrArg _ (funext fun part => ih (part :: trail) hall hrest)
      · obtain ⟨hpart, hrest⟩ :=
          isRange_of_mem_allEnds (q := q.exhaustive) hg hright (mem_allEnds_of_loopEnds he)
        have hall : IsRange q.text start e := ⟨hleft.le.trans hpart.le, hleft.left, hpart.right⟩
        obtain ⟨elements, hs⟩ := Option.isSome_iff_exists.1 hs
        obtain ⟨part, -, hs⟩ := Option.bind_eq_some_iff.1 hs
        obtain ⟨further, -, htiles, hfit, hcomplete⟩ :=
          plainExtend_fits (q := q.exhaustive) hg hparse hrest hs
        exact loop_follows_allows hg hreg hshape hfit htiles hcomplete hall hrest

theorem plainLoop_exhaustive (hparse : q.FittingParts parse') (hsame : q.SameParts parse parse')
    {d item : DefId} {separator : Option DefId} {repetition : Repetition} {start stop : Nat}
    (hshape : q.grammar.Repeats d item separator repetition) (hrange : IsRange q.text start stop) :
    q.plainLoop parse (q.loopPlan d item separator repetition start stop) fuel =
      q.exhaustive.plainLoop parse' (q.exhaustive.loopPlan d item separator repetition start stop)
        fuel := by
  have helements := plainExtend_exhaustive hg hreg hparse hsame hshape fuel []
    ⟨Nat.le_refl start, hrange.left, hrange.left⟩ hrange
  exact congrArg _ helements

/-! ### Definitions -/

/-- When the parts are found alike with and without pruning, so is the whole. -/
theorem plainShape_exhaustive (hparse : q.FittingParts parse') (hsame : q.SameParts parse parse')
    {d : DefId} {start stop : Nat} (hrange : IsRange q.text start stop) :
    q.plainShape parse fuel d start stop = q.exhaustive.plainShape parse' fuel d start stop := by
  have hstart : IsRange q.text start start := ⟨Nat.le_refl start, hrange.left, hrange.left⟩
  rw [plainShape, plainShape]
  cases hshape : q.grammar.shape d with
  | sequence items =>
      rw [show q.exhaustive.grammar.shape d = _ from hshape]
      have hparts :=
        plainSequence_exhaustive hg hreg hparse hsame hshape List.drop_zero hstart hrange
      dsimp only
      rw [hparts]
  | choice alternatives =>
      rw [show q.exhaustive.grammar.shape d = _ from hshape]
      exact plainChoice_exhaustive hg hreg hparse hsame hrange
  | optional item quantifier =>
      rw [show q.exhaustive.grammar.shape d = _ from hshape]
      dsimp only
      rw [hsame item start stop hrange]
  | loop item repetition =>
      rw [show q.exhaustive.grammar.shape d = _ from hshape]
      exact plainLoop_exhaustive hg hreg hparse hsame hshape hrange
  | separated item separator default repetition =>
      rw [show q.exhaustive.grammar.shape d = _ from hshape]
      have hrepeats : q.grammar.Repeats d item (some separator) repetition := ⟨default, hshape⟩
      exact plainLoop_exhaustive hg hreg hparse hsame hrepeats hrange
  | literal text => rw [show q.exhaustive.grammar.shape d = _ from hshape]; rfl
  | pattern source => rw [show q.exhaustive.grammar.shape d = _ from hshape]; rfl
  | empty => rw [show q.exhaustive.grammar.shape d = _ from hshape]
  | «alias» target name => rw [show q.exhaustive.grammar.shape d = _ from hshape]
  | forward target => rw [show q.exhaustive.grammar.shape d = _ from hshape]
  | withDefault content target => rw [show q.exhaustive.grammar.shape d = _ from hshape]

/-- **The plain search finds the same with and without pruning.** -/
theorem plain_exhaustive (fuel : Nat) (active : List Part) :
    q.SameParts (q.plain fuel active) (q.exhaustive.plain fuel active) := by
  induction fuel generalizing active with
  | zero => exact fun _ _ _ _ => rfl
  | succ fuel ih =>
      intro d start stop hrange
      rw [plain, plain]
      rw [plainShape_exhaustive hg hreg (plain_fits (q := q.exhaustive) hg fuel _) (ih _) hrange]
      rfl

/-! ### Whole texts -/

/-- A text that is accepted matches the pattern of the definition. -/
theorem feasible_of_run {d : DefId} {s : Split} (h : (q.run d).1 = .ok s) :
    q.grammar.feasible d q.text = true := by
  obtain ⟨hspan, hfits⟩ := run_fits hg h
  have hholds : s.Holds q.text q.text := by
    rw [Split.Holds, hspan]
    exact slice?_whole q.text
  exact (hg.definition_admits hreg d).whole _ (hfits.derives hg hholds)

/-- Both searches for the split of a whole text have the same result. -/
theorem run_exhaustive (hlimit : q.grammar.limits.recursionLimit = none) {d : DefId}
    (hd : d < q.grammar.size) : (q.run d).1 = (q.exhaustive.run d).1 := by
  have hsame : (fun fuel => q.plain fuel [] d 0 (byteLength q.text)) =
      fun fuel => q.exhaustive.plain fuel [] d 0 (byteLength q.text) :=
    funext fun fuel => plain_exhaustive hg hreg fuel [] d 0 _ (IsRange.whole q.text)
  have hpruned := run_describes hg hlimit hd
  rw [hsame] at hpruned
  exact hpruned.unique (run_describes (q := q.exhaustive) hg hlimit hd)

end Valid

/-- Without a limit a search either succeeds or rejects. -/
theorem run_ok_or_rejected (hg : q.grammar.Valid)
    (hlimit : q.grammar.limits.recursionLimit = none) {d : DefId} (hd : d < q.grammar.size) :
    (∃ s, (q.run d).1 = .ok s) ∨ (q.run d).1 = .error .rejected := by
  have hresult := run_describes hg hlimit hd
  match hr : (q.run d).1 with
  | .ok s => exact .inl ⟨s, rfl⟩
  | .error e =>
      rw [hr] at hresult
      exact .inr (congrArg _ hresult.1)

/-- What is accepted with pruning is accepted without, whatever the patterns are. -/
theorem run_ok_exhaustive (hg : q.grammar.Valid)
    (hlimit : q.grammar.limits.recursionLimit = none) {d : DefId} (hd : d < q.grammar.size)
    {s : Split} (h : (q.run d).1 = .ok s) : ∃ s', (q.exhaustive.run d).1 = .ok s' := by
  obtain ⟨fuel, hfuel⟩ := run_ok hg h
  obtain ⟨s', hs', -⟩ := plain_le_of_wider (Wider.exhaustive q) fuel [] d 0 _ s hfuel
  have hresult := run_describes (q := q.exhaustive) hg hlimit hd
  match hr : (q.exhaustive.run d).1 with
  | .ok s => exact ⟨s, rfl⟩
  | .error e =>
      rw [hr] at hresult
      cases hs'.symm.trans (hresult.2 fuel)

end Query

/-- A text is accepted when the search that leaves nothing out accepts it. -/
theorem resolve_ok_iff {g : Grammar} (hg : g.Valid) (hlimit : g.limits.recursionLimit = none)
    {d : DefId} (hd : d < g.size) (text : Text) :
    (∃ split, (resolve g d text).result = .ok split) ↔
      ∃ split, (Query.run ⟨g, text, false⟩ d).1 = .ok split := by
  constructor
  · rintro ⟨split, h⟩
    obtain ⟨prune, hrun⟩ := resolve_ok h
    exact Query.run_ok_exhaustive (q := ⟨g, text, prune⟩) hg hlimit hd hrun
  · rintro ⟨split, h⟩
    have hfully : ∀ before, (resolveFully g d text before).result = .ok split := by
      intro before
      rw [resolveFully]
      split
      · next hr => simpa [hr] using h
      · next hr => simp [hr] at h
      · next hr => simp [hr] at h
    rw [resolve]
    split
    · have hpruned := Query.run_ok_or_rejected (q := ⟨g, text, true⟩) hg hlimit hd
      split
      · exact ⟨_, rfl⟩
      · exact ⟨split, hfully _⟩
      · next hne hr =>
        simp only [hr, reduceCtorEq, exists_false, Except.error.injEq, false_or] at hpruned
        exact absurd hpruned hne
    · exact ⟨split, hfully _⟩

/-- The search with pruning for the split of a whole text: a text that does not match the pattern of
the definition is rejected at once. -/
def prunedRun (g : Grammar) (d : DefId) (text : Text) : Except Abort Split :=
  if g.feasible d text then (Query.run ⟨g, text, true⟩ d).1 else .error .rejected

theorem prunedRun_eq {g : Grammar} (hg : g.Valid) (hreg : g.Regular)
    (hlimit : g.limits.recursionLimit = none) {d : DefId} (hd : d < g.size) (text : Text) :
    prunedRun g d text = (Query.run ⟨g, text, false⟩ d).1 := by
  rw [prunedRun]
  split
  · exact Query.run_exhaustive (q := ⟨g, text, true⟩) hg hreg hlimit hd
  · next hinfeasible =>
    rcases Query.run_ok_or_rejected (q := ⟨g, text, false⟩) hg hlimit hd with ⟨s, hs⟩ | hr
    · exact absurd (Query.feasible_of_run (q := ⟨g, text, false⟩) hg hreg hs) hinfeasible
    · exact hr.symm

/-- **Pruning does not show in the result.**  For every grammar without a recursion limit: when the
engine keeps its laws and no pattern has a condition on a position, the searches with and without
pruning accept the same texts with the same splits.  Whatever the patterns and the engine are, what is
accepted with pruning is accepted without, so a text is resolved exactly when the search without
pruning accepts it. -/
theorem pruning_invisible {draft : Draft} {g : Grammar} (hbuild : draft.build = .ok g)
    (hlimit : g.limits.recursionLimit = none) {d : DefId} (hd : d < g.size) (text : Text) :
    (g.engine.Lawful → g.LookFree → prunedRun g d text = (Query.run ⟨g, text, false⟩ d).1) ∧
      (∀ split, prunedRun g d text = .ok split →
        ∃ split', (Query.run ⟨g, text, false⟩ d).1 = .ok split') ∧
      ((∃ split, (resolve g d text).result = .ok split) ↔
        ∃ split, (Query.run ⟨g, text, false⟩ d).1 = .ok split) := by
  have hg := Draft.build_valid hbuild
  refine ⟨fun hlawful hfree => prunedRun_eq hg ⟨hlawful, hfree⟩ hlimit hd text, fun split h => ?_,
    resolve_ok_iff hg hlimit hd text⟩
  rw [prunedRun] at h
  split at h
  · exact Query.run_ok_exhaustive (q := ⟨g, text, true⟩) hg hlimit hd h
  · cases h

/-- A row of two letters has one split, with and without pruning. -/
theorem pruning_invisible_row :
    rowDraft.build = .ok rowGrammar ∧ rowGrammar.LookFree ∧
      (Query.run ⟨rowGrammar, ['a', 'a'], false⟩ 0).1 = .ok rowSplit := by
  have hpruned : prunedRun rowGrammar 0 ['a', 'a'] = .ok rowSplit := by
    rw [prunedRun, if_pos rowGrammar_feasible, run_row]
  have hsame := (pruning_invisible (d := 0) rowDraft_build rfl (by decide) ['a', 'a']).1
    Engine.standard_lawful rowGrammar_lookFree
  exact ⟨rowDraft_build, rowGrammar_lookFree, hsame.symm.trans hpruned⟩

end Tessera
