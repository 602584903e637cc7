import PixelLayout.Proofs.TextBox

/-!
# Texts are centred

A pass settles the font of each text and then centres it. Both look a size up in the font table: the
author's choice, which is checked before, or what fitting picks, which is on offer. So neither
look-up ever fails, and a pass never stops for it (`not_ofLookup_of_fault`).

The text is centred in a room that is never negative. Across, the room is what the text leaves of the
width, where a text takes no more than the width. Down, it is what the glyphs leave of the height, and
glyphs that are too high start at the top edge. Half of the room goes in front, rounded down.

**The law** (`textsCentred_of_resolve`) says this of every tile of a tree, the items of its lists
included, with fonts of the author's choice and with fitted ones.
-/

namespace PixelLayout

/-- Half of a room, rounded down: as much is left behind it, or one pixel more. -/
def Halves (room half : Int) : Prop := 0 ≤ half ∧ 0 ≤ room - 2 * half ∧ room - 2 * half ≤ 1

theorem halves_div {room : Int} (h : 0 ≤ room) : Halves room (room / 2) := by
  unfold Halves
  omega

/-- The text of a tile is set in a font, with an offset that centres it in the rectangle of the
tile. -/
structure Tile.TextCentred (p : Profile) (t : Tile) (r : Rect) (f : BitmapFont) (o : Offset) :
    Prop where
  rect : t.rect = some r
  offset : t.text.offset = some o
  size : t.text.resolvedFontSize = some f.size
  font : f ∈ p.fontTable.entries
  glyphWidth : p.fontTable.glyphWidth? f.size = some f.glyphWidth
  chosen : ∀ size, t.text.fontSize = some size → f.size = size
  fitted : t.text.fontSize = none →
    f.size = p.fontTable.fit t.text.content.length r.width r.height
  /-- What the text takes of the width is never more than the width. -/
  across : Halves (r.width - min (f.glyphWidth * t.text.content.length) r.width) o.x
  down : f.size ≤ r.height → Halves (r.height - f.size) o.y
  top : r.height < f.size → o.y = 0
  /-- A fitted text is inside its tile if it fits at any size. -/
  inside : t.text.fontSize = none →
    (∃ g ∈ p.fontTable.entries,
      g.glyphWidth * t.text.content.length < r.width ∧ g.size < r.height) →
    r.Contains (DrawCode.textBox t.text.content.length f r o)

/-- The fault of a look-up in vain: of a size that is in no table, or of the room in a tile that has
no rectangle. -/
def LayoutFault.OfLookup : LayoutFault → Prop
  | .unknownSize _ _ | .unplacedTile _ => True
  | _ => False

/-! ## One text -/

namespace FontTable

/-- The room across a centred text is halved. -/
theorem halves_centre_x (length : Nat) (glyphWidth size width height : Int) :
    Halves (width - min (glyphWidth * length) width)
      (centre length glyphWidth size width height).x :=
  halves_div (Int.sub_nonneg_of_le (Int.min_le_right _ _))

/-- The room above and below it is halved, unless there is none. -/
theorem halves_centre_y (length : Nat) (glyphWidth : Int) {size height : Int} (width : Int)
    (h : size ≤ height) :
    Halves (height - size) (centre length glyphWidth size width height).y := by
  have room : 0 ≤ height - size := Int.sub_nonneg_of_le h
  rw [centre, Int.max_eq_left room]
  exact halves_div room

theorem centre_y_of_high (length : Nat) (glyphWidth : Int) {size height : Int} (width : Int)
    (h : height < size) : (centre length glyphWidth size width height).y = 0 := by
  rw [centre, Int.max_eq_right (by omega)]
  rfl

/-- A size with a glyph width is the size of a font. -/
theorem exists_font_of_glyphWidth {t : FontTable} {size glyphWidth : Int}
    (h : t.glyphWidth? size = some glyphWidth) : ⟨size, glyphWidth⟩ ∈ t.entries := by
  obtain ⟨f, found, rfl⟩ := Option.map_eq_some_iff.mp h
  have same : f.size = size := by simpa only [beq_iff_eq] using List.find?_some found
  subst same
  exact List.mem_of_find?_eq_some found

end FontTable

/-- A text that is laid out is centred. -/
theorem Tile.TextLaidOut.centred {p : Profile} {t : Tile} {r : Rect} (laid : t.TextLaidOut p r)
    (hrect : t.rect = some r) : ∃ f o, t.TextCentred p r f o := by
  obtain ⟨hsize, glyphWidth, hwidth, hoffset⟩ := laid
  have font := FontTable.exists_font_of_glyphWidth hwidth
  refine ⟨⟨t.sizeIn p r, glyphWidth⟩, _, hrect, hoffset, hsize, font, hwidth, ?_, ?_,
    FontTable.halves_centre_x _ _ _ _ _, ?_, ?_, ?_⟩
  · intro size chosen
    rw [sizeIn, chosen, Option.getD_some]
  · intro free
    rw [sizeIn, free, Option.getD_none]
  · exact FontTable.halves_centre_y _ _ _
  · exact FontTable.centre_y_of_high _ _ _
  · rintro free ⟨g, hg, room⟩
    -- the font that fitting picks leaves room as well, and it is the only one of its size
    obtain ⟨f, hf, hfit, fits, _⟩ := FontTable.exists_fit ⟨g, hg, FontTable.fits_iff.mpr room⟩
    have size : t.sizeIn p r = f.size := by rw [sizeIn, free, Option.getD_none, hfit]
    rw [size, FontTable.glyphWidth?_of_mem hf, Option.some.injEq] at hwidth
    rw [size, ← hwidth]
    exact (DrawCode.textBox_inside fits).1

/-- No visit stops a pass with a look-up in vain. -/
theorem Visit.not_ofLookup_of_halt {p : Profile} {v : Visit} {e : LayoutFault}
    (h : v.halt p = some (.layout e)) : ¬ e.OfLookup := by
  obtain ⟨n, d⟩ := v
  cases n <;> grind [halt, offence, LayoutFault.OfLookup]

namespace Node

variable {root out : Node} {bounds : Rect} {p : Profile}

/-- The tiles of a resolved tree are those of the tree as it was given, in document order, and the
text of each is laid out in its rectangle. -/
theorem tiles_laidOut_of_resolve (h : root.resolve bounds p = .ok out) :
    List.Forall₂ (fun t u => u.SameDeclaration t ∧ ∃ r, u.rect = some r ∧ u.TextLaidOut p r)
      root.tiles out.tiles := by
  rw [tiles, tiles, ← Pass.visits_node p root bounds, List.filterMap_map]
  refine List.rel_filterMap ?_ (laidOut_of_resolve h)
  rintro ⟨m, d⟩ n ⟨same, geometry⟩
  cases m <;> cases n <;> simp only [SameDeclaration] at same
  case tile.tile t u => exact .some ⟨same, d, geometry⟩
  all_goals exact .none

/-- A pass never looks a font up in vain, not even one that stops. -/
theorem not_ofLookup_of_fault {e : LayoutFault}
    (h : (root.resolveInPlace bounds p).fault = some (.layout e)) : ¬ e.OfLookup := by
  rw [resolveInPlace_fault] at h
  obtain ⟨v, _, halts⟩ := List.exists_of_findSome?_eq_some h
  exact Visit.not_ofLookup_of_halt halts

/-- **Every text is centred in its tile.** Take any tree, bounds and profile. If the tree is laid out,
each of its tiles and items of lists, in document order, has a font of the table: the one of the
author's size, or else the one that fitting picks. It is centred in the tile's rectangle, and inside
it where it was fitted and fits at all. And no pass stops because it looks a font up in vain. -/
theorem textsCentred_of_resolve (root : Node) (bounds : Rect) (p : Profile) :
    (∀ out, root.resolve bounds p = .ok out →
      List.Forall₂ (fun t u => u.SameDeclaration t ∧ ∃ r f o, u.TextCentred p r f o)
        root.tiles out.tiles) ∧
    ∀ e, (root.resolveInPlace bounds p).fault = some (.layout e) → ¬ e.OfLookup := by
  refine ⟨fun out h => ?_, fun e h => not_ofLookup_of_fault h⟩
  refine (tiles_laidOut_of_resolve h).imp ?_
  rintro t u ⟨same, r, hrect, laid⟩
  exact ⟨same, r, laid.centred hrect⟩

/-- A size of the author's choice that is higher and wider than its tile, two tiles with an odd number
of rows to spare, and a list whose items fit at no size. -/
def mixedTexts : Node :=
  .stack .vertical [.tile ((Tile.ofContent "8:30").setFontSize 56),
    .stack .horizontal [label "A", label "B"] none, listOf ["Log", "Map"]] none

theorem textsCentred_of_resolve_mixedTexts :
    ∃ out, mixedTexts.resolve ⟨0, 0, 101, 93⟩ Profile.waveshare2in9 = .ok out ∧
      List.Forall₂ (fun t u => u.SameDeclaration t ∧
        ∃ r f o, u.TextCentred Profile.waveshare2in9 r f o) mixedTexts.tiles out.tiles ∧
      out.tiles.map (fun t => t.text.offset) =
        [some ⟨0, 0⟩, some ⟨18, 3⟩, some ⟨18, 3⟩, some ⟨33, 0⟩, some ⟨33, 0⟩] := by
  obtain ⟨centred, _⟩ :=
    textsCentred_of_resolve mixedTexts ⟨0, 0, 101, 93⟩ Profile.waveshare2in9
  exact ⟨_, rfl, centred _ rfl, rfl⟩

end Node

end PixelLayout
