import PixelLayout.Proofs.Prefix
import PixelLayout.Proofs.Refresh

/-!
# Where a fitted text is drawn

A text that is left to fitting gets the largest font that leaves room around it, and is centred. The
block of its tile draws it there, and redraws the tile without its outermost pixels. So the pixels of
the text (`DrawCode.textBox`) and the pixels that are redrawn are settled by three rules that know
nothing of each other: room means one pixel or more on each axis, centring halves the room and rounds
down, and the refresh takes one pixel off every side.

**The law** (`fittedText_redrawn_iff`): the text stays inside the tile, and ends inside the area of
the refresh. It starts there too, and so is redrawn whole, exactly if its font leaves two pixels of
room on both axes. One pixel of room is halved to none: the first column of the text, or its first
row, is then the first of the tile, which the refresh leaves out.
-/

namespace PixelLayout

namespace DrawCode

/-- The pixels that a font draws a text of `length` characters on, at an offset in a tile. -/
def textBox (length : Nat) (f : BitmapFont) (r : Rect) (offset : Offset) : Rect :=
  ⟨r.x + offset.x, r.y + offset.y, f.glyphWidth * length, f.size⟩

/-- The lines of a block that draw the text, given the pixels that it takes. -/
def textLines (box : Rect) : String :=
  "        paint.DrawStringAt(" ++ box.x.repr ++ ", " ++ box.y.repr ++ ", message, &Font" ++
    box.height.repr ++ ", COLORED);\n" ++
    "    \x7d,\n"

theorem append_textLines (head : String) (box : Rect) :
    head ++ textLines box = head ++ "        paint.DrawStringAt(" ++ box.x.repr ++ ", " ++
      box.y.repr ++ ", message, &Font" ++ box.height.repr ++ ", COLORED);\n" ++ "    \x7d,\n" := by
  unfold textLines
  simp only [String.append_assoc]

/-- A block draws its text with the font that the text has, and then gives the area of its tile's
refresh. -/
theorem block_eq_textLines {text : TileText} {f : BitmapFont}
    (hsize : text.resolvedFontSize = some f.size) (r : Rect) (offset : Offset) (options : Options) :
    ∃ head, block text r offset options = head ++
      textLines (textBox text.content.length f r offset) ++ refreshLine (refresh r) := by
  have hrefresh := fun head => append_refreshLine head (refresh r)
  have htext := fun head => append_textLines head (textBox text.content.length f r offset)
  simp only [hrefresh, htext]
  unfold block
  rw [hsize]
  exact ⟨_, rfl⟩

/-! ## Room, centring and refresh -/

variable {length : Nat} {f : BitmapFont} {r : Rect}

/-- A text with room around it is centred by half of the room. -/
theorem centre_of_fits (hfits : FontTable.fits f length r.width r.height = true) :
    FontTable.centre length f.glyphWidth f.size r.width r.height =
      ⟨(r.width - f.glyphWidth * length) / 2, (r.height - f.size) / 2⟩ := by
  rw [FontTable.fits_iff] at hfits
  rw [FontTable.centre, Int.min_eq_left (Int.le_of_lt hfits.1), Int.max_eq_left (by omega)]

/-- The pixels of a centred text with room around it are inside the tile, and end inside the area of
the refresh. -/
theorem textBox_inside (hfits : FontTable.fits f length r.width r.height = true) :
    let box := textBox length f r (FontTable.centre length f.glyphWidth f.size r.width r.height)
    r.Contains box ∧ box.right ≤ (refresh r).right ∧ box.bottom ≤ (refresh r).bottom := by
  rw [centre_of_fits hfits]
  rw [FontTable.fits_iff] at hfits
  simp only [textBox, Rect.Contains, Rect.right, Rect.bottom, refresh]
  omega

/-- They start at an edge of the tile, which is outside that area, exactly where one pixel is the
whole room. -/
theorem textBox_edge_iff (hfits : FontTable.fits f length r.width r.height = true) :
    let box := textBox length f r (FontTable.centre length f.glyphWidth f.size r.width r.height)
    (box.x = r.x ↔ f.glyphWidth * length + 1 = r.width) ∧
      (box.y = r.y ↔ f.size + 1 = r.height) := by
  rw [centre_of_fits hfits]
  rw [FontTable.fits_iff] at hfits
  simp only [textBox]
  omega

/-- They start inside it too, if they start anywhere, exactly where the room is two pixels wide and
two pixels high. -/
theorem textBox_redrawn_iff (hwidth : 0 < f.glyphWidth) (hheight : 0 < f.size)
    (hfits : FontTable.fits f length r.width r.height = true) :
    (∀ px py, (textBox length f r
        (FontTable.centre length f.glyphWidth f.size r.width r.height)).Covers px py →
          (refresh r).Covers px py) ↔
      length = 0 ∨ (f.glyphWidth * length + 2 ≤ r.width ∧ f.size + 2 ≤ r.height) := by
  rw [centre_of_fits hfits]
  rw [FontTable.fits_iff] at hfits
  simp only [textBox, Rect.Covers, Refresh.Covers, Rect.right, Rect.bottom, refresh]
  constructor
  · intro inside
    rcases Nat.eq_zero_or_pos length with empty | shown
    · exact .inl empty
    · have wide : 0 < f.glyphWidth * length := Int.mul_pos hwidth (Int.natCast_pos.mpr shown)
      have corner := inside _ _ ⟨Int.le_refl _, by omega, Int.le_refl _, by omega⟩
      omega
  · rintro (rfl | room) px py covered
    · omega
    · omega

end DrawCode

namespace Node

variable {root out : Node} {bounds : Rect} {p : Profile}

/-- The text of each tile of a resolved tree is laid out in the rectangle of the tile. -/
theorem textLaidOut_of_resolve (h : root.resolve bounds p = .ok out) {t : Tile}
    (ht : t ∈ out.tiles) {r : Rect} (hr : t.rect = some r) : t.TextLaidOut p r := by
  obtain ⟨u, d, goes, rfl, _⟩ := exists_visit_of_mem_tiles h ht
  obtain ⟨hrect, laid⟩ := Pass.placeTile_of_halt goes
  rw [hrect, Option.some.injEq] at hr
  exact hr ▸ laid

/-- **A fitted text is redrawn whole exactly if its font leaves two pixels of room on both axes.**
Take a tile or an item of a list of a resolved tree, without a font size of the author's choice, and
let some font of the table leave room around its text. Then the text gets the largest font that
does, and its block draws it with that font on the pixels that its offset gives. They are inside the
tile, and end inside the area of the refresh that the block gives. They are all in that area exactly
if there are none, or the font leaves two pixels or more both ways; with one pixel left, the text
starts at the edge of the tile. -/
theorem fittedText_redrawn_iff (h : root.resolve bounds p = .ok out) {t : Tile}
    (ht : t ∈ out.tiles) (hsize : t.text.fontSize = none) {r : Rect} (hr : t.rect = some r)
    (room : ∃ f ∈ p.fontTable.entries,
      f.glyphWidth * t.text.content.length < r.width ∧ f.size < r.height) :
    ∃ f ∈ p.fontTable.entries, ∃ offset box,
      (f.glyphWidth * t.text.content.length < r.width ∧ f.size < r.height) ∧
      (∀ g ∈ p.fontTable.entries,
        g.glyphWidth * t.text.content.length < r.width ∧ g.size < r.height → g.size ≤ f.size) ∧
      t.text.resolvedFontSize = some f.size ∧ t.text.offset = some offset ∧
      box = DrawCode.textBox t.text.content.length f r offset ∧
      (∀ options, ∃ head, DrawCode.drawCall options t = .ok (head ++
        DrawCode.textLines box ++ DrawCode.refreshLine (DrawCode.refresh r))) ∧
      (r.Contains box ∧ box.right ≤ (DrawCode.refresh r).right ∧
        box.bottom ≤ (DrawCode.refresh r).bottom) ∧
      ((∀ px py, box.Covers px py → (DrawCode.refresh r).Covers px py) ↔
        t.text.content = "" ∨
          (f.glyphWidth * t.text.content.length + 2 ≤ r.width ∧ f.size + 2 ≤ r.height)) ∧
      (box.x = r.x ↔ f.glyphWidth * t.text.content.length + 1 = r.width) ∧
      (box.y = r.y ↔ f.size + 1 = r.height) := by
  obtain ⟨g, hg, hroom⟩ := room
  obtain ⟨f, hf, hfit, hfits, largest⟩ := FontTable.exists_fit ⟨g, hg, FontTable.fits_iff.mpr hroom⟩
  obtain ⟨hresolved, glyphWidth, hwidth, hoffset⟩ := textLaidOut_of_resolve h ht hr
  have size : t.sizeIn p r = f.size := by rw [Tile.sizeIn, hsize, Option.getD_none, hfit]
  rw [size] at hresolved hwidth hoffset
  rw [FontTable.glyphWidth?_of_mem hf, Option.some.injEq] at hwidth
  subst hwidth
  obtain ⟨hheight, hglyph⟩ := p.fontTable.positive f hf
  refine ⟨f, hf, _, _, FontTable.fits_iff.mp hfits, ?_, hresolved, hoffset, rfl, ?_,
    DrawCode.textBox_inside hfits, ?_, DrawCode.textBox_edge_iff hfits⟩
  · intro g hg hroom
    exact largest g hg (FontTable.fits_iff.mpr hroom)
  · intro options
    obtain ⟨head, hblock⟩ := DrawCode.block_eq_textLines hresolved r
      (FontTable.centre t.text.content.length f.glyphWidth f.size r.width r.height) options
    refine ⟨head, ?_⟩
    rw [← hblock]
    simp only [DrawCode.drawCall, Artifact.requirePlaced, hr, hoffset, bind, Except.bind, pure,
      Except.pure]
  · rw [DrawCode.textBox_redrawn_iff hglyph hheight hfits, ← String.length_eq_zero_iff]

/-- The largest font of the paper display leaves two pixels of room around one character. -/
theorem fittedText_redrawn_iff_label :
    ∃ out, (label "A").resolve ⟨0, 0, 34, 58⟩ Profile.waveshare2in9 = .ok out ∧
      ∃ t ∈ out.tiles, t.text.fontSize = none ∧ t.rect = some ⟨0, 0, 34, 58⟩ ∧
        ∃ f ∈ Profile.waveshare2in9.fontTable.entries, ∃ offset, f.size = 56 ∧
          t.text.resolvedFontSize = some f.size ∧ t.text.offset = some offset ∧
          ∀ px py, (DrawCode.textBox 1 f ⟨0, 0, 34, 58⟩ offset).Covers px py →
            (DrawCode.refresh ⟨0, 0, 34, 58⟩).Covers px py := by
  have laid : (label "A").resolve ⟨0, 0, 34, 58⟩ Profile.waveshare2in9 =
      .ok (.tile ⟨⟨"A", none, none, some ⟨1, 1⟩, some 56⟩, some ⟨0, 0, 34, 58⟩⟩) := rfl
  obtain ⟨f, hf, offset, _, _, _, hsize, hoffset, rfl, _, _, redrawn, _⟩ :=
    fittedText_redrawn_iff laid (List.mem_singleton.mpr rfl) rfl rfl
      ⟨⟨56, 32⟩, by decide, by decide⟩
  have size : f.size = 56 := (Option.some.inj hsize).symm
  have width := FontTable.glyphWidth?_of_mem hf
  rw [size] at width
  have wide : f.glyphWidth = 32 := (Option.some.inj width).symm
  refine ⟨_, laid, _, List.mem_singleton.mpr rfl, rfl, rfl, f, hf, offset, size, hsize, hoffset, ?_⟩
  exact redrawn.mpr (.inr (by rw [wide, size]; decide))

/-- One pixel of room is not enough, although it is room: a label whose largest font leaves one
column free has its first column outside the area of its refresh. -/
theorem not_forall_fittedText_redrawn :
    ¬ ∀ (root out : Node) (bounds : Rect) (p : Profile) (t : Tile) (r : Rect) (f : BitmapFont)
      (offset : Offset), root.resolve bounds p = .ok out → t ∈ out.tiles →
        t.text.fontSize = none → t.rect = some r →
        (∃ g ∈ p.fontTable.entries,
          g.glyphWidth * t.text.content.length < r.width ∧ g.size < r.height) →
        f ∈ p.fontTable.entries → t.text.resolvedFontSize = some f.size →
        t.text.offset = some offset →
          ∀ px py, (DrawCode.textBox t.text.content.length f r offset).Covers px py →
            (DrawCode.refresh r).Covers px py := by
  intro redrawn
  have laid : (label "A").resolve ⟨0, 0, 33, 58⟩ Profile.waveshare2in9 =
      .ok (.tile ⟨⟨"A", none, none, some ⟨0, 1⟩, some 56⟩, some ⟨0, 0, 33, 58⟩⟩) := rfl
  have corner := redrawn _ _ _ _ _ _ ⟨56, 32⟩ _ laid (List.mem_singleton.mpr rfl) rfl rfl
    ⟨⟨56, 32⟩, by decide, by decide⟩ (by decide) rfl rfl 0 1 ⟨by decide, by decide, by decide,
      by decide⟩
  exact absurd corner.1 (by decide)

end Node

end PixelLayout
