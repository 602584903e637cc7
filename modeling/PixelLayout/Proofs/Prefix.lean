import PixelLayout.Proofs.Declared
import PixelLayout.Proofs.Stopped

/-!
# What a stopped pass leaves behind

A pass that stops has done a part of its work. That part is exact: in document order, the tree holds
the new layout up to the node at the fault and no geometry behind it, new or old
(`prefix_of_stopped_pass`).

What the new layout of a node is, `Visit.LaidOut` says from the node and its area alone: the area for
a tile or a list, the rule inside the area for a separator, and for the text of a tile the size and
the offset that centres it. Stacks and splits have no geometry of their own.
-/

namespace PixelLayout

/-- The size of a tile's text in an area: the author's choice, or else the best fit. -/
def Tile.sizeIn (p : Profile) (t : Tile) (d : Rect) : Int :=
  t.text.fontSize.getD (p.fontTable.fit t.text.content.length d.width d.height)

/-- The text of a tile has its size in an area and the offset that centres it there. -/
def Tile.TextLaidOut (p : Profile) (t : Tile) (d : Rect) : Prop :=
  t.text.resolvedFontSize = some (t.sizeIn p d) ∧
    ∃ glyphWidth, p.fontTable.glyphWidth? (t.sizeIn p d) = some glyphWidth ∧
      t.text.offset = some
        (FontTable.centre t.text.content.length glyphWidth (t.sizeIn p d) d.width d.height)

namespace Visit

/-- The node that a visit becomes holds the geometry that the layout rules give it. -/
def LaidOut (p : Profile) (v : Visit) (n : Node) : Prop :=
  n.SameDeclaration v.node ∧
    match n with
    | .tile t => t.rect = some v.area ∧ t.TextLaidOut p v.area
    | .separator .horizontal r =>
      r = some ⟨v.area.x + p.horizontalSeparatorMargin, v.area.y,
        v.area.width - 2 * p.horizontalSeparatorMargin, 1⟩
    | .separator .vertical r =>
      r = some ⟨v.area.x, v.area.y + p.verticalSeparatorMargin, 1,
        v.area.height - 2 * p.verticalSeparatorMargin⟩
    | .list _ _ r => r = some v.area
    | .stack _ _ r => r = none
    | .split _ _ _ _ r => r = none
    | .bare _ => False

/-- The node that a visit becomes when it stops a pass has no rectangle. Only a tile keeps its area:
it is refused for a font size that the display does not offer, and its text has nothing. -/
def StoppedWith (p : Profile) (fault : Fault) (v : Visit) (n : Node) : Prop :=
  n.SameDeclaration v.node ∧
    match n with
    | .tile t => t.rect = some v.area ∧ t.text.offset = none ∧ t.text.resolvedFontSize = none ∧
        ∃ size, t.text.fontSize = some size ∧ p.fontTable.hasSize size = false ∧ fault =
          .layout (.sizeNotOffered t.text.content size p.name p.fontTable.sizes)
    | n => n.rect? = none

/-- The node that a visit becomes when the pass does not get to it has no geometry at all. -/
def Untouched (v : Visit) (n : Node) : Prop := n.SameDeclaration v.node ∧ n.LacksGeometry

end Visit

/-- A tile that is laid out has its area, and its text the size and the offset that the font table
gives. -/
theorem Pass.placeTile_of_halt {p : Profile} {t : Tile} {d : Rect}
    (h : (Visit.mk (.tile t) d).halt p = none) :
    (t.place p d).result.rect = some d ∧ (t.place p d).result.TextLaidOut p d := by
  refine ⟨placeTile_rect p t d, ?_⟩
  have offered : p.fontTable.hasSize (t.sizeIn p d) = true := by
    unfold Tile.sizeIn
    cases hsize : t.text.fontSize with
    | none => exact FontTable.hasSize_fit p.fontTable t.text.content.length d.width d.height
    | some size =>
      by_cases hoffered : p.fontTable.hasSize size = true
      · exact hoffered
      · simp only [Visit.halt, Visit.offence, hsize, if_neg hoffered, Option.map_some,
          reduceCtorEq] at h
  have checked : (Tile.mk t.text (some d)).checkSize p = .ok () := by
    unfold Tile.checkSize
    cases hsize : t.text.fontSize with
    | none => rfl
    | some size =>
      rw [Tile.sizeIn, hsize, Option.getD_some] at offered
      exact if_pos offered
  obtain ⟨glyphWidth, hwidth⟩ := FontTable.exists_glyphWidth offered
  have applied : (Tile.mk t.text (some d)).applyFont p.fontTable = .ok
      ⟨{ t.text with
          offset := some (FontTable.centre t.text.content.length glyphWidth (t.sizeIn p d) d.width
            d.height)
          resolvedFontSize := some (t.sizeIn p d) }, some d⟩ := by
    simp only [Tile.applyFont, FontTable.textOffset]
    unfold Tile.sizeIn at hwidth ⊢
    rw [hwidth]
    rfl
  simp only [Tile.place, checked, applied]
  exact ⟨rfl, glyphWidth, hwidth, rfl⟩

namespace Visit

variable {p : Profile} {v : Visit}

theorem sameDeclaration_placed_clear (p : Profile) (v : Visit) :
    (v.clear.placed p).SameDeclaration v.node := by
  have kept := Pass.clear_place p v.node.clear v.area
  exact Node.sameDeclaration_iff.mpr (kept.trans v.node.clear_clear)

/-- A visit that goes on gives its node the geometry of the layout rules. -/
theorem laidOut_placed_clear (goes : v.halt p = none) : v.LaidOut p (v.clear.placed p) := by
  refine ⟨sameDeclaration_placed_clear p v, ?_⟩
  have clear_goes : v.clear.halt p = none := (v.halt_clear p).trans goes
  obtain ⟨n, d⟩ := v
  cases n with
  | stack axis nodes r =>
    obtain ⟨nodes', hplace⟩ := Pass.place_stack p axis (Node.clearAll nodes) none d
    simp only [clear, Node.clear, placed, hplace]
  | split a s b t r =>
    obtain ⟨a', b', hplace⟩ := Pass.place_split p a.clear s b.clear t none d
    simp only [clear, Node.clear, placed, hplace]
  | tile t =>
    simp only [clear, Node.clear, placed, Pass.place]
    exact Pass.placeTile_of_halt clear_goes
  | separator axis r =>
    obtain ⟨rule', hrule, hplace⟩ := Pass.place_separator_of_halt clear_goes
    have long : 2 * p.separatorMargin axis ≤ Pass.extent axis d := Pass.halt_separator.mp goes
    rw [Pass.rule_eq, if_neg (Int.not_lt.mpr long)] at hrule
    simp only [clear, Node.clear, placed] at hplace ⊢
    rw [hplace]
    cases axis <;> simp only [Except.ok.injEq] at hrule <;> rw [← hrule] <;> rfl
  | list items k r =>
    simp only [clear, Node.clear, placed] at clear_goes ⊢
    rw [Pass.place_list_of_halt clear_goes]
  | bare r => cases goes

/-- A visit that stops the pass gives its node no rectangle, unless it is a tile. -/
theorem stoppedWith_placed_clear {fault : Fault} (halts : v.halt p = some fault) :
    v.StoppedWith p fault (v.clear.placed p) := by
  refine ⟨sameDeclaration_placed_clear p v, ?_⟩
  have clear_halts : v.clear.halt p = some fault := (v.halt_clear p).trans halts
  obtain ⟨n, d⟩ := v
  cases n with
  | stack axis nodes r =>
    obtain ⟨nodes', hplace⟩ := Pass.place_stack p axis (Node.clearAll nodes) none d
    simp only [clear, Node.clear, placed, hplace, Node.rect?]
  | split a s b t r =>
    obtain ⟨a', b', hplace⟩ := Pass.place_split p a.clear s b.clear t none d
    simp only [clear, Node.clear, placed, hplace, Node.rect?]
  | tile t =>
    have hfault := (Pass.placeTile_fault p t.clear d).trans clear_halts
    rcases Pass.placeTile_cases p t.clear d with ⟨_, _, _, hplace⟩ | ⟨e, hoffence, hplace⟩
    · rw [hplace] at hfault
      cases hfault
    · rw [hplace, Option.some.injEq] at hfault
      simp only [clear, Node.clear, placed, Pass.place, hplace]
      refine ⟨trivial, rfl, rfl, ?_⟩
      cases hsize : t.text.fontSize with
      | none => simp only [offence, Tile.clear, hsize, reduceCtorEq] at hoffence
      | some size =>
        cases hoffered : p.fontTable.hasSize size with
        | true => simp only [offence, Tile.clear, hsize, hoffered, ↓reduceIte, reduceCtorEq]
            at hoffence
        | false =>
          simp only [offence, Tile.clear, hsize, hoffered, Bool.false_eq_true, ↓reduceIte,
            Option.some.injEq] at hoffence
          exact ⟨size, hsize, hoffered, by rw [← hfault, ← hoffence]; rfl⟩
  | separator axis r =>
    have unresolved := isResolved_placed_of_halts clear_halts rfl
    obtain ⟨r', hplace⟩ := Pass.place_separator p axis none d
    simp only [clear, Node.clear, placed, hplace, Node.isResolved, Option.isSome_eq_false_iff,
      Option.isNone_iff_eq_none] at unresolved ⊢
    exact unresolved
  | list items k r =>
    have unresolved := isResolved_placed_of_halts clear_halts rfl
    obtain ⟨items', r', hplace⟩ := Pass.place_list p (items.map Tile.clear) k none d
    simp only [clear, Node.clear, placed, hplace, Node.isResolved, Option.isSome_eq_false_iff,
      Option.isNone_iff_eq_none] at unresolved ⊢
    exact unresolved
  | bare r => rfl

theorem untouched_clear (v : Visit) : v.Untouched v.node.clear :=
  ⟨v.node.sameDeclaration_clear, v.node.lacksGeometry_clear⟩

end Visit

namespace Node

/-- The tree `out` holds, in document order, the layout of `root` in the bounds up to the first node
that stops a pass, and no geometry behind it. -/
def HoldsPrefix (root : Node) (bounds : Rect) (p : Profile) (fault : Fault) (out : Node) : Prop :=
  ∃ (before : List Visit) (f : Visit) (after : List Visit) (laid : List Node) (stopped : Node)
      (untouched : List Node),
    -- the first visit that stops the pass, and the nodes before it, at it and behind it
    Pass.visits p root bounds = before ++ f :: after ∧
      root.walk = before.map Visit.node ++ f.node :: after.map Visit.node ∧
      (∀ v ∈ before, v.halt p = none) ∧ f.halt p = some fault ∧
      -- what becomes of them
      out.walk = laid ++ stopped :: untouched ∧
      List.Forall₂ (Visit.LaidOut p) before laid ∧ f.StoppedWith p fault stopped ∧
      List.Forall₂ Visit.Untouched after untouched

/-- **A stopped pass leaves an exact prefix of the new layout**, whatever geometry the tree had.
Every node before the one at the fault holds what the layout rules give it in its area. The node at
the fault has no rectangle, unless it is a tile refused for its font size, which keeps its area
alone. No node behind it has any geometry. -/
theorem prefix_of_stopped_pass {root : Node} {bounds : Rect} {p : Profile} {fault : Fault}
    (h : (root.resolveInPlace bounds p).fault = some fault) :
    root.HoldsPrefix bounds p fault (root.resolveInPlace bounds p).result := by
  obtain ⟨before, f, after, hvisits, hbefore, hf, hwalk⟩ := walk_of_fault h
  refine ⟨before, f, after, _, _, _, hvisits, ?_, hbefore, hf, hwalk, ?_,
    Visit.stoppedWith_placed_clear hf, ?_⟩
  · rw [← Pass.visits_node p root bounds, hvisits, List.map_append, List.map_cons]
  · rw [List.forall₂_map_right_iff, List.forall₂_same]
    exact fun v hv => Visit.laidOut_placed_clear (hbefore v hv)
  · rw [List.forall₂_map_right_iff, List.forall₂_same]
    exact fun v _ => v.untouched_clear

/-- A tree that is laid out holds, in document order, what the layout rules give each of its nodes. -/
theorem laidOut_of_resolve {root out : Node} {bounds : Rect} {p : Profile}
    (h : root.resolve bounds p = .ok out) :
    List.Forall₂ (Visit.LaidOut p) (Pass.visits p root bounds) out.walk := by
  obtain ⟨goes, hwalk⟩ := walk_of_resolve h
  rw [hwalk, List.forall₂_map_right_iff, List.forall₂_same]
  exact fun v hv => Visit.laidOut_placed_clear (goes v hv)

/-- A tile, then a list whose second item asks for a font size that the display does not offer, then
a rule; all of them with geometry left over from before. -/
def staleList : Node :=
  .stack .vertical
    [.tile ⟨⟨"A", none, none, some ⟨9, 9⟩, some 8⟩, some ⟨1, 2, 3, 4⟩⟩,
      .list [.ofContent "x", ⟨⟨"y", none, some 16, some ⟨9, 9⟩, some 8⟩, some ⟨1, 2, 3, 4⟩⟩,
        ⟨⟨"z", none, none, some ⟨9, 9⟩, some 8⟩, some ⟨1, 2, 3, 4⟩⟩] 3 (some ⟨5, 6, 7, 8⟩),
      .separator .horizontal (some ⟨5, 6, 7, 8⟩)]
    (some ⟨0, 0, 1, 1⟩)

theorem prefix_of_stopped_pass_staleList :
    (staleList.resolveInPlace Profile.waveshare2in9.bounds Profile.waveshare2in9).fault =
        some (.layout (.sizeNotOffered "y" 16 "waveshare_2in9" [56, 42, 31, 24, 19])) ∧
      staleList.HoldsPrefix Profile.waveshare2in9.bounds Profile.waveshare2in9
        (.layout (.sizeNotOffered "y" 16 "waveshare_2in9" [56, 42, 31, 24, 19]))
        (staleList.resolveInPlace Profile.waveshare2in9.bounds Profile.waveshare2in9).result :=
  ⟨rfl, prefix_of_stopped_pass rfl⟩

end Node

end PixelLayout
