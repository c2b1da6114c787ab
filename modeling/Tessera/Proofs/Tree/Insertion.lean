/-
**When an insertion succeeds.**

An insertion asks for a loop, an index in range, room for one more item, a text that the item accepts,
and the text of a separator where one is needed.  When all of this is there it succeeds: the text of
the separator is a default content, and default contents fit.  When something is missing, the first
missing thing is reported.

Main definitions:

* `Tessera.Tree.LoopAt` — a node is a loop with the given items;
* `Tessera.Tree.Insertable` — everything is there that an insertion asks for;
* `Tessera.Tree.InsertFault` — the faults of an insertion, each with what was found before it.

Main results:

* `Tessera.Tree.insert_of_insertable` — an insertion that has what it asks for succeeds;
* `Tessera.Tree.insert_of_fault` — and one that does not fails with the first fault;
* `Tessera.Session.insertion_run` — **insertions fail for these reasons only**.
-/

import Tessera.Proofs.Search.Defaults
import Tessera.Proofs.Tree.Coherence

set_option autoImplicit false

namespace Tessera

open Branch Tessera.Tree

variable {t : Tree} {g : Grammar} {n : NodeId} {index : Nat} {text : Text} {rule : LoopRule}
  {items : List NodeId} {e : TreeError}

namespace Tree

/-! ### What an insertion asks for -/

/-- The node is a loop: it repeats what the rule says, and has the given items. -/
structure LoopAt (t : Tree) (n : NodeId) (rule : LoopRule) (items : List NodeId) : Prop where
  rule : t.loopRule n = .ok rule
  items : t.items n = .ok items

/-- Where an item inserted among `len` items needs a separator, the loop has a text for it: its own,
or the default content of the separator. -/
def SuppliesSeparator (g : Grammar) (rule : LoopRule) (len : Nat) : Prop :=
  ∀ d explicit, rule.separator = some (d, explicit) → 0 < len →
    explicit.isSome ∨ (g.defaultContent? d).isSome

/-- Everything is there that an insertion asks for. -/
def Insertable (t : Tree) (n : NodeId) (index : Nat) (text : Text) : Prop :=
  ∃ rule items, t.LoopAt n rule items ∧ index ≤ items.length ∧
    rule.repetition.admits (items.length + 1) = true ∧ t.grammar.Accepts rule.item text ∧
      SuppliesSeparator t.grammar rule items.length

/-- The faults of an insertion.  Each is reported only when none of those above it is there. -/
inductive InsertFault (t : Tree) (n : NodeId) (index : Nat) (text : Text) : TreeError → Prop
  /-- The node is no loop. -/
  | shape {found : NodeShape} (hfound : t.shape n = .ok found) (hloop : found ≠ .loop)
      (hseparated : found ≠ .separated) : InsertFault t n index text (.shapeMismatch n .loop found)
  /-- There is no place of this number. -/
  | index {rule : LoopRule} {items : List NodeId} (h : t.LoopAt n rule items)
      (hindex : items.length < index) :
      InsertFault t n index text (.indexOutOfBounds n index items.length)
  /-- The loop has no room for one more item. -/
  | count {rule : LoopRule} {items : List NodeId} (h : t.LoopAt n rule items)
      (hindex : index ≤ items.length) (hcount : ¬ rule.repetition.admits (items.length + 1) = true) :
      InsertFault t n index text
        (.countOutOfBounds n (items.length + 1) rule.repetition.min rule.repetition.max)
  /-- The item does not accept the text. -/
  | text {rule : LoopRule} {items : List NodeId} {r : Rejection} (h : t.LoopAt n rule items)
      (hindex : index ≤ items.length) (hcount : rule.repetition.admits (items.length + 1) = true)
      (hreject : (resolve t.grammar rule.item text).result = .error (.rejected r)) :
      InsertFault t n index text (.incompatible r)
  /-- A separator is needed and has no text. -/
  | separator {rule : LoopRule} {items : List NodeId} {d : DefId} (h : t.LoopAt n rule items)
      (hindex : index ≤ items.length) (hcount : rule.repetition.admits (items.length + 1) = true)
      (haccepts : t.grammar.Accepts rule.item text) (hseparator : rule.separator = some (d, none))
      (hitems : 0 < items.length) (hdefault : t.grammar.defaultContent? d = none) :
      InsertFault t n index text (.missingSeparator n)

/-- A node whose rule is a repetition is a loop; any other node is of the wrong kind. -/
theorem loopAt_or_mismatch (hn : t.Live n) (hformed : t.Formed n) :
    (∃ rule items, t.LoopAt n rule items) ∨
      t.loopRule n = .error (.shapeMismatch n .loop (t.node n).body.shape) ∧
        (t.node n).body.shape ≠ .loop ∧ (t.node n).body.shape ≠ .separated := by
  have hshape' : t.grammar.shape (t.node n).definition = t.shapeOf n := rfl
  cases hshape : t.shapeOf n with
  | loop item r =>
      obtain ⟨items, hbody, -⟩ := (formed_loop_iff hshape).1 hformed
      refine .inl ⟨⟨item, none, r⟩, items, ?_, hn.items_loop hbody⟩
      simp [loopRule, hn.get_eq, bind, Except.bind, hshape', hshape]
  | separated item d explicit r =>
      obtain ⟨items, separators, hbody, -⟩ := (formed_separated_iff hshape).1 hformed
      refine .inl ⟨⟨item, some (d, explicit), r⟩, items, ?_, (hn.items_separated hbody).1⟩
      simp [loopRule, hn.get_eq, bind, Except.bind, hshape', hshape]
  | _ =>
      -- no other rule gives a node the parts of a loop
      refine .inr ⟨by simp [loopRule, hn.get_eq, bind, Except.bind, hshape', hshape, mismatch], ?_⟩
      unfold Formed at hformed
      rw [hshape] at hformed
      cases hbody : (t.node n).body <;> simp_all [Body.shape]

theorem Live.shape_eq (hn : t.Live n) : t.shape n = .ok (t.node n).body.shape := by
  rw [Tree.shape, hn.get_eq]
  rfl

/-- The loops are the nodes of two kinds. -/
theorem loopAt_iff (hn : t.Live n) (hformed : t.Formed n) :
    (∃ rule items, t.LoopAt n rule items) ↔ t.shape n = .ok .loop ∨ t.shape n = .ok .separated := by
  rw [hn.shape_eq]
  constructor
  · rintro ⟨rule, items, -, hitems⟩
    obtain ⟨-, hbody | ⟨separators, hbody⟩⟩ := items_ok hitems
    · exact .inl (by rw [hbody]; rfl)
    · exact .inr (by rw [hbody]; rfl)
  · intro hkind
    rcases loopAt_or_mismatch hn hformed with h | ⟨-, hloop, hseparated⟩
    · exact h
    · rcases hkind with hkind | hkind
      · exact absurd (Except.ok.inj hkind) hloop
      · exact absurd (Except.ok.inj hkind) hseparated

/-! ### Faults -/

/-- An insertion in which something is missing fails with the first fault. -/
theorem insert_of_fault (hn : t.Live n) (hformed : t.Formed n)
    (h : t.InsertFault n index text e) : t.insert n index text = .error e := by
  cases h with
  | @shape found hfound hloop hseparated =>
      rcases loopAt_or_mismatch hn hformed with h | ⟨hrule, -⟩
      · rw [loopAt_iff hn hformed, hfound] at h
        simp [hloop, hseparated] at h
      · rw [hn.shape_eq] at hfound
        rw [Except.ok.inj hfound] at hrule
        simp [Tree.insert, hrule, bind, Except.bind]
  | @index rule items h hindex =>
      simp [Tree.insert, h.rule, h.items, bind, Except.bind, hindex, throw, throwThe, MonadExceptOf.throw]
  | @count rule items h hindex hcount =>
      simp [Tree.insert, h.rule, h.items, bind, Except.bind, Nat.not_lt.2 hindex, checkCount, hcount]
  | @text rule items r h hindex hcount hreject =>
      simp [Tree.insert, h.rule, h.items, bind, Except.bind, Nat.not_lt.2 hindex, checkCount, hcount,
        Outcome.split, hreject, TreeError.ofSearch]
  | @separator rule items d h hindex hcount haccepts hseparator hitems hdefault =>
      obtain ⟨split, hsplit⟩ := haccepts
      simp [Tree.insert, h.rule, h.items, bind, Except.bind, Nat.not_lt.2 hindex, checkCount, hcount,
        Outcome.split_eq_ok.2 hsplit, newSeparator, hseparator, hitems, separatorText, hdefault]

/-! ### Success -/

/-- The tree and the reports after a new item, and the separator that comes with it, were put into a
loop. -/
def inserted (t : Tree) (n : NodeId) (index : Nat) (text : Text) (split : Split) (d : DefId)
    (separator : Option (DefId × Text × Split)) : Change NodeId :=
  let (item, e) := Edit.spawn text split d n ⟨t, []⟩
  let (s, e) := Edit.spawnSeparator separator n e
  let e := e.onTree fun t => t.setBody n (insertParts (t.node n).body index item s)
  (Edit.propagateUp n (e.recompose n)).result item

/-- An insertion that finds the splits of all texts succeeds. -/
theorem LoopAt.insert_of_split {split : Split} {separator : Option (DefId × Text × Split)}
    (h : t.LoopAt n rule items) (hindex : index ≤ items.length)
    (hcount : rule.repetition.admits (items.length + 1) = true)
    (hsplit : (resolve t.grammar rule.item text).result = .ok split)
    (hseparator : t.newSeparator n rule items.length = .ok separator) :
    t.insert n index text = .ok (t.inserted n index text split rule.item separator) := by
  simp only [Tree.insert, h.rule, h.items, bind, Except.bind, Nat.not_lt.2 hindex, if_false,
    checkCount, hcount, if_true, Outcome.split_eq_ok.2 hsplit, hseparator]
  rfl

/-- A text for a separator is never rejected. -/
theorem accepts_separatorText (hvalid : t.grammar.Valid)
    (hlimit : t.grammar.limits.recursionLimit = none) (hfit : t.grammar.DefaultsFit)
    {d : DefId} {explicit : Option Text} {w : Text} (hrule : t.loopRule n = .ok rule)
    (hseparator : rule.separator = some (d, explicit)) (hw : t.separatorText n d explicit = .ok w) :
    t.grammar.Accepts d w := by
  rw [separatorText] at hw
  split at hw
  · next text htext =>
    obtain rfl := Except.ok.inj hw
    cases explicit with
    | none => exact hfit.accepts_default hvalid hlimit htext
    | some text' =>
        obtain rfl : text' = text := Option.some.inj htext
        rcases loopRule_ok hrule with ⟨-, hnone⟩ | ⟨d', explicit', hshape, hsome⟩
        · cases hnone.symm.trans hseparator
        · obtain ⟨rfl, rfl⟩ : d = d' ∧ some text' = explicit' := by
            simpa [hseparator] using hsome
          exact hfit.accepts_separator hshape
  · cases hw

/-- An insertion that has everything it asks for succeeds. -/
theorem insert_of_insertable (hvalid : t.grammar.Valid)
    (hlimit : t.grammar.limits.recursionLimit = none) (hfit : t.grammar.DefaultsFit)
    (h : t.Insertable n index text) : ∃ change, t.insert n index text = .ok change := by
  obtain ⟨rule, items, hloop, hindex, hcount, ⟨split, hsplit⟩, hsupplies⟩ := h
  have hseparator : ∃ separator, t.newSeparator n rule items.length = .ok separator := by
    rw [newSeparator]
    cases hrule : rule.separator with
    | none => exact ⟨none, rfl⟩
    | some separator =>
        obtain ⟨d, explicit⟩ := separator
        by_cases hpos : 0 < items.length
        · obtain ⟨w, hw⟩ : ∃ w, t.separatorText n d explicit = .ok w := by
            have hsome : (explicit.or (t.grammar.defaultContent? d)).isSome := by
              simpa [Option.isSome_or] using hsupplies d explicit hrule hpos
            obtain ⟨w, hw⟩ := Option.isSome_iff_exists.1 hsome
            exact ⟨w, by rw [separatorText, hw]⟩
          obtain ⟨split', hsplit'⟩ :=
            accepts_separatorText hvalid hlimit hfit hloop.rule hrule hw
          exact ⟨some (d, w, split'), by
            simp [hpos, hw, Outcome.split_eq_ok.2 hsplit', bind, Except.bind, pure, Except.pure]⟩
        · exact ⟨none, by simp [hpos, pure, Except.pure]⟩
  obtain ⟨separator, hseparator⟩ := hseparator
  exact ⟨_, hloop.insert_of_split hindex hcount hsplit hseparator⟩

/-- Either everything is there, or there is a first fault. -/
theorem insertable_or_fault (hn : t.Live n) (hformed : t.Formed n) (hvalid : t.grammar.Valid)
    (hlimit : t.grammar.limits.recursionLimit = none) :
    t.Insertable n index text ∨ ∃ e, t.InsertFault n index text e := by
  rcases loopAt_or_mismatch hn hformed with ⟨rule, items, h⟩ | ⟨-, hloop, hseparated⟩
  swap
  · exact .inr ⟨_, .shape hn.shape_eq hloop hseparated⟩
  by_cases hindex : index ≤ items.length
  swap
  · exact .inr ⟨_, .index h (Nat.lt_of_not_le hindex)⟩
  by_cases hcount : rule.repetition.admits (items.length + 1) = true
  swap
  · exact .inr ⟨_, .count h hindex hcount⟩
  have hitem : rule.item < t.grammar.size := by
    refine hvalid.references_shape (d := (t.node n).definition) ?_
    rcases loopRule_ok h.rule with ⟨hshape, -⟩ | ⟨d, explicit, hshape, -⟩
    · rw [shapeOf] at hshape
      simp [hshape, Rule.references]
    · rw [shapeOf] at hshape
      simp [hshape, Rule.references]
  rcases resolve_ok_or_rejected hvalid hlimit hitem text with haccepts | ⟨r, hreject⟩
  swap
  · exact .inr ⟨_, .text h hindex hcount hreject⟩
  by_cases hsupplies : SuppliesSeparator t.grammar rule items.length
  · exact .inl ⟨rule, items, h, hindex, hcount, haccepts, hsupplies⟩
  · simp only [SuppliesSeparator, not_forall, not_or, Option.not_isSome_iff_eq_none] at hsupplies
    obtain ⟨d, explicit, hseparator, hpos, rfl, hdefault⟩ := hsupplies
    exact .inr ⟨_, .separator h hindex hcount haccepts hseparator hpos hdefault⟩

end Tree

/-- **Insertions fail for their own reasons only.**  For every grammar without a recursion limit and
every live node of a tree in use: an insertion succeeds exactly when the node is a loop, the index is
in range, one more item is admitted, the item accepts the text, and the loop has the text of a
separator if it needs one.  Otherwise it fails with the first fault in this order.  The text of a
separator is never rejected. -/
theorem Session.insertion_run {draft : Draft} (hbuild : draft.build = .ok g)
    (hlimit : g.limits.recursionLimit = none) {ops : List Operation}
    (hrun : (Session.run g ops).tree = t) (hn : t.Live n) (index : Nat) (text : Text) :
    ((∃ rule items, t.LoopAt n rule items) ↔ t.shape n = .ok .loop ∨ t.shape n = .ok .separated) ∧
    ((∃ change, t.insert n index text = .ok change) ↔ t.Insertable n index text) ∧
    (∀ e, t.insert n index text = .error e ↔ t.InsertFault n index text e) ∧
    (∀ rule d explicit w, t.loopRule n = .ok rule → rule.separator = some (d, explicit) →
      t.separatorText n d explicit = .ok w → g.Accepts d w) := by
  have hvalid := Draft.build_valid hbuild
  have hfit := Draft.build_defaultsFit hbuild
  subst hrun
  obtain ⟨hgrammar, -, roots, hgarden, -⟩ :=
    Session.tended_run hvalid (Draft.build_ranked hbuild) ops
  generalize (Session.run g ops).tree = t at *
  subst hgrammar
  have hformed := (hgarden.sound n (hgarden.live_iff.1 hn)).formed
  have hcases : t.Insertable n index text ∨ ∃ e, t.InsertFault n index text e :=
    insertable_or_fault hn hformed hvalid hlimit
  refine ⟨loopAt_iff hn hformed, ⟨?_, insert_of_insertable hvalid hlimit hfit⟩, fun e =>
    ⟨fun h => ?_, insert_of_fault hn hformed⟩, fun rule d explicit w hrule hseparator hw =>
    accepts_separatorText hvalid hlimit hfit hrule hseparator hw⟩
  · rintro ⟨change, hok⟩
    rcases hcases with h | ⟨e, hfault⟩
    · exact h
    · cases hok.symm.trans (insert_of_fault hn hformed hfault)
  · rcases hcases with hinsertable | ⟨e', hfault⟩
    · obtain ⟨change, hok⟩ := insert_of_insertable hvalid hlimit hfit hinsertable
      cases hok.symm.trans h
    · obtain rfl := Except.error.inj (h.symm.trans (insert_of_fault hn hformed hfault))
      exact hfault

/-! ### A list of two letters -/

namespace Session

/-- A list without letters. -/
def listSprout : Tree := ((Tree.empty listGrammar).allocFilled none 4).2

/-- The list with its first letter. -/
def listTree : Tree := (listSprout.inserted ⟨0, 0⟩ 0 ['a'] (.leaf ⟨0, 1⟩) 3 none).tree

theorem step_insert {s : Session} {split : Split} {separator : Option (DefId × Text × Split)}
    (h : s.tree.LoopAt n rule items) (hindex : index ≤ items.length)
    (hcount : rule.repetition.admits (items.length + 1) = true)
    (hsplit : (resolve s.tree.grammar rule.item text).result = .ok split)
    (hseparator : s.tree.newSeparator n rule items.length = .ok separator) :
    s.step (.insert n index text) =
      ⟨(s.tree.inserted n index text split rule.item separator).tree, s.created⟩ := by
  simp [Session.step, Tree.perform, h.insert_of_split hindex hcount hsplit hseparator, Except.map,
    Change.map, createdBy]

theorem run_list :
    (run listGrammar [.create 4, .insert ⟨0, 0⟩ 0 ['a']]).tree = listTree := by
  have hcreate : step ⟨.empty listGrammar, []⟩ (.create 4) = ⟨listSprout, [⟨0, 0⟩]⟩ := by
    have hcontains : (Tree.empty listGrammar).grammar.contains 4 = true := rfl
    have hroot : ((Tree.empty listGrammar).allocFilled none 4).1 = ⟨0, 0⟩ := rfl
    simp [step, Tree.perform, Tree.create, hcontains, hroot, Except.map, Change.map, createdBy,
      listSprout]
  have hloop : listSprout.LoopAt ⟨0, 0⟩ ⟨3, some (2, none), .any⟩ [] := ⟨rfl, rfl⟩
  have hletter : (resolve listSprout.grammar 3 ['a']).result = .ok (.leaf ⟨0, 1⟩) :=
    resolve_literal rfl rfl
  have hcomma : listSprout.newSeparator ⟨0, 0⟩ ⟨3, some (2, none), .any⟩ 0 = .ok none := rfl
  have hinsert := step_insert (s := ⟨listSprout, [⟨0, 0⟩]⟩) hloop (Nat.le_refl 0) rfl hletter hcomma
  simp only [run, List.foldl_cons, List.foldl_nil, hcreate, hinsert]
  rfl

/-- The list takes a second letter, with a comma that is found behind two other names. -/
theorem insertion_run_list :
    listDraft.build = .ok listGrammar ∧ listTree.Live ⟨0, 0⟩ ∧
      listTree.Insertable ⟨0, 0⟩ 1 ['a'] ∧ ∃ change, listTree.insert ⟨0, 0⟩ 1 ['a'] = .ok change := by
  have hlive : listTree.Live ⟨0, 0⟩ := by decide
  have hinsertable : listTree.Insertable ⟨0, 0⟩ 1 ['a'] := by
    refine ⟨⟨3, some (2, none), .any⟩, [⟨1, 0⟩], ⟨rfl, rfl⟩, Nat.le_refl 1, rfl,
      ⟨_, resolve_literal rfl rfl⟩, ?_⟩
    rintro d explicit h -
    cases h
    exact .inr rfl
  obtain ⟨-, hok, -⟩ := insertion_run listDraft_build rfl run_list hlive 1 ['a']
  exact ⟨listDraft_build, hlive, hinsertable, hok.2 hinsertable⟩

end Session

end Tessera
