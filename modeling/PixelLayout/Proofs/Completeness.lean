import PixelLayout.Node.Build
import PixelLayout.Proofs.Stopped

/-!
# Complete trees

A tree may hold any part of a layout: a pass has stopped at a fault, or geometry was set and taken
away by hand. `Node.Incomplete` says of one node that something of its own is missing, of the
rectangle of its kind and, for a tile, of the offset and the size of its text; each of these may be
there without the others.

**The law** (`refused_iff_incomplete`): one incomplete node anywhere is enough for every emitter to
refuse the tree, with one and the same fault, which counts the incomplete nodes and names the first
five in document order (`Node.refusal`). No emitter fails in any other way: of a tree without an
incomplete node each of them finds all that it looks up (`Node.Readable`). What a pass has laid out
is such a tree.
-/

namespace PixelLayout

/-- A part of the geometry that the node itself should have is missing. Stacks and splits have none
of their own, so none of theirs is missing, whatever is below them. -/
def Node.Incomplete : Node → Prop
  | .stack .. | .split .. => False
  | .tile t => t.rect = none ∨ t.text.offset = none ∨ t.text.resolvedFontSize = none
  | .separator _ r => r = none
  | .list _ _ r => r = none
  | .bare r => r = none

instance : DecidablePred Node.Incomplete
  | .stack .. | .split .. => .isFalse id
  | .tile _ => inferInstanceAs (Decidable (_ ∨ _ ∨ _))
  | .separator _ r => inferInstanceAs (Decidable (r = none))
  | .list _ _ r => inferInstanceAs (Decidable (r = none))
  | .bare r => inferInstanceAs (Decidable (r = none))

/-- The incomplete nodes of a tree, in document order. -/
def Node.incompleteNodes (root : Node) : List Node := root.walk.filter fun n => n.Incomplete

/-- Why a tree is refused: how many of its nodes are incomplete, and which are the first five. -/
def Node.refusal (root : Node) : RenderFault :=
  .unresolved root.incompleteNodes.length ((root.incompleteNodes.take 5).map describe)

/-- Whatever a document looks up in the tree is there: of each tile its rectangle, the offset and
the size of its text, and of each rule its rectangle. -/
structure Node.Readable (root : Node) : Prop where
  tiles : ∀ t ∈ root.tiles, ∃ r offset size, t.rect = some r ∧ t.text.offset = some offset ∧
    t.text.resolvedFontSize = some size
  rules : ∀ rule ∈ root.rules, ∃ r, rule.2 = some r

/-- What fails with one fault under a condition, and does not fail otherwise, fails in no other
way. -/
theorem eq_error_iff_of_cases {α ε : Type} {x : Except ε α} {e : ε} {P : Prop}
    (fails : P → x = .error e) (succeeds : ¬ P → ∃ a, x = .ok a) (fault : ε) :
    x = .error fault ↔ fault = e ∧ P := by
  constructor
  · intro h
    by_cases hP : P
    · exact ⟨Except.error.inj (h.symm.trans (fails hP)), hP⟩
    · obtain ⟨a, ha⟩ := succeeds hP
      rw [ha] at h
      cases h
  · rintro ⟨rfl, hP⟩
    exact fails hP

namespace Node

variable {root : Node}

theorem isResolved_eq_false_iff {n : Node} : n.isResolved = false ↔ n.Incomplete := by
  cases n with
  | stack axis ns r => exact ⟨nofun, False.elim⟩
  | split a s b t r => exact ⟨nofun, False.elim⟩
  | tile t =>
    simp only [isResolved, Tile.isResolved, Incomplete, Bool.and_eq_false_iff,
      Option.isSome_eq_false_iff, Option.isNone_iff_eq_none, or_assoc]
  | separator axis r =>
    simp only [isResolved, Incomplete, Option.isSome_eq_false_iff, Option.isNone_iff_eq_none]
  | list items k r =>
    simp only [isResolved, Incomplete, Option.isSome_eq_false_iff, Option.isNone_iff_eq_none]
  | bare r =>
    simp only [isResolved, Incomplete, Option.isSome_eq_false_iff, Option.isNone_iff_eq_none]

theorem isResolved_iff_not_incomplete {n : Node} : n.isResolved = true ↔ ¬ n.Incomplete := by
  rw [← isResolved_eq_false_iff, Bool.not_eq_false]

theorem isResolved_of_complete (h : ∀ n ∈ root.walk, ¬ n.Incomplete) :
    ∀ n ∈ root.walk, n.isResolved = true :=
  fun n hn => isResolved_iff_not_incomplete.mpr (h n hn)

theorem unresolved_eq_incompleteNodes (root : Node) : root.unresolved = root.incompleteNodes := by
  apply List.filter_congr
  intro n _
  rw [Bool.eq_iff_iff, Bool.not_eq_true', decide_eq_true_iff, isResolved_eq_false_iff]

/-- An incomplete node anywhere makes the refusal of the tree. -/
theorem ensureResolved_of_incomplete (h : ∃ n ∈ root.walk, n.Incomplete) :
    root.ensureResolved = .error root.refusal := by
  obtain ⟨n, hn, incomplete⟩ := h
  have found : n ∈ root.incompleteNodes := List.mem_filter.mpr ⟨hn, decide_eq_true incomplete⟩
  rw [ensureResolved, unresolved_eq_incompleteNodes, refusal]
  cases hnodes : root.incompleteNodes with
  | nil =>
    rw [hnodes] at found
    cases found
  | cons m ms => rfl

theorem readable_of_resolved (h : ∀ n ∈ root.walk, n.isResolved = true) : root.Readable where
  tiles t ht := by
    have resolved := isResolved_of_mem_tiles h ht
    simp only [Tile.isResolved, Bool.and_eq_true, Option.isSome_iff_exists] at resolved
    obtain ⟨⟨⟨r, hr⟩, offset, hoffset⟩, size, hsize⟩ := resolved
    exact ⟨r, offset, size, hr, hoffset, hsize⟩
  rules rule hr := Option.isSome_iff_exists.mp (isSome_of_mem_rules h hr)

/-- **The incomplete trees are refused, and no others.** In any state of a tree, the preview and the
streams fail with one and the same fault, its refusal, exactly if a node is incomplete, and with no
other fault ever. If none is, each document is made, and everything that it looks up is there. No
node of a tree that a pass has laid out is incomplete. -/
theorem refused_iff_incomplete (root : Node) :
    (∀ (bounds : Rect) (p : Profile) (options : DrawCode.Options) (fault : Fault),
      (Preview.render root bounds p = .error fault ↔
          fault = .render root.refusal ∧ ∃ n ∈ root.walk, n.Incomplete) ∧
        (DrawCode.streams root options = .error fault ↔
          fault = .render root.refusal ∧ ∃ n ∈ root.walk, n.Incomplete)) ∧
      ((∀ n ∈ root.walk, ¬ n.Incomplete) → root.Emitted ∧ root.Readable) ∧
      ∀ (source : Node) (bounds : Rect) (p : Profile), source.resolve bounds p = .ok root →
        ∀ n ∈ root.walk, ¬ n.Incomplete := by
  have resolved (h : ¬ ∃ n ∈ root.walk, n.Incomplete) : ∀ n ∈ root.walk, n.isResolved = true :=
    isResolved_of_complete fun n hn incomplete => h ⟨n, hn, incomplete⟩
  refine ⟨?_, ?_, ?_⟩
  · intro bounds p options fault
    refine ⟨eq_error_iff_of_cases ?_ (fun h => exists_preview (resolved h) bounds p) fault,
      eq_error_iff_of_cases ?_ (fun h => exists_streams (resolved h) options) fault⟩
    · intro incomplete
      rw [Preview.render, ensureResolved_of_incomplete incomplete]
      rfl
    · intro incomplete
      rw [DrawCode.streams, ensureResolved_of_incomplete incomplete]
      rfl
  · intro complete
    have all := isResolved_of_complete complete
    exact ⟨emitted_of_resolved all, readable_of_resolved all⟩
  · intro source bounds p h n hn
    exact isResolved_iff_not_incomplete.mp (isResolved_of_resolve h n hn)

/-- A label with its rectangle and its size but no offset, and a rule that has nothing. -/
def halfPlaced : Node :=
  .stack .vertical
    [.tile ⟨⟨"A", none, none, none, some 19⟩, some ⟨0, 0, 60, 40⟩⟩, .separator .vertical none] none

theorem refused_iff_incomplete_halfPlaced :
    Preview.render halfPlaced ⟨0, 0, 60, 40⟩ Profile.waveshare2in9 =
        .error (.render (.unresolved 2 ["Tile('A')", "VerticalSeparator"])) ∧
      DrawCode.streams halfPlaced DrawCode.defaultOptions =
        .error (.render (.unresolved 2 ["Tile('A')", "VerticalSeparator"])) := by
  have refusal : halfPlaced.refusal = .unresolved 2 ["Tile('A')", "VerticalSeparator"] := by
    decide +kernel
  have incomplete : ∃ n ∈ halfPlaced.walk, n.Incomplete := by decide
  obtain ⟨preview, streams⟩ := (refused_iff_incomplete halfPlaced).1 ⟨0, 0, 60, 40⟩
    Profile.waveshare2in9 DrawCode.defaultOptions (.render halfPlaced.refusal)
  rw [← refusal]
  exact ⟨preview.mpr ⟨rfl, incomplete⟩, streams.mpr ⟨rfl, incomplete⟩⟩

end Node

end PixelLayout
