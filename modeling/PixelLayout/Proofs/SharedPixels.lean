import PixelLayout.Proofs.Slots

/-!
# Overlapping and sharing a pixel

Whether two rectangles overlap is read off their edges: on both axes, each of them starts before the
other ends. That is meant to say that they share a pixel. Along one axis, each starts before the
other ends in two cases (`meet_iff`): a row or column of pixels runs through both, or one of them is
flat, without a length, and lies strictly between the edges of the other. In the second case they
share nothing.

**The law** (`overlapReading`): rectangles that share a pixel overlap, and rectangles that overlap
share one unless they meet flat, on one axis or on both. So the two mean the same for rectangles that
have a pixel (`sharesPixel_iff`). Layouts do have flat rectangles: a rule in a slot no longer than
its two margins has no length, and it overlaps the tile behind it.
-/

namespace PixelLayout

theorem Axis.forall_iff {P : Axis → Prop} : (∀ axis, P axis) ↔ P .vertical ∧ P .horizontal := by
  constructor
  · intro h
    exact ⟨h .vertical, h .horizontal⟩
  · rintro ⟨hvertical, hhorizontal⟩ axis
    cases axis
    · exact hvertical
    · exact hhorizontal

namespace Rect

variable {r s : Rect}

/-- The rectangle has at least one row and one column. -/
def Positive (r : Rect) : Prop := 0 < r.width ∧ 0 < r.height

/-- Some pixel belongs to both rectangles. -/
def SharesPixel (r s : Rect) : Prop := ∃ px py, r.Covers px py ∧ s.Covers px py

/-! ## Along one axis -/

/-- A line of pixels across the axis, a row or a column, runs through both rectangles. -/
def ShareLine (axis : Axis) (r s : Rect) : Prop :=
  ∃ place, (r.near axis ≤ place ∧ place < r.far axis) ∧ s.near axis ≤ place ∧ place < s.far axis

/-- Along the axis, `r` has no length and lies strictly between the edges of `s`. -/
def FlatIn (axis : Axis) (r s : Rect) : Prop :=
  r.far axis = r.near axis ∧ s.near axis < r.near axis ∧ r.near axis < s.far axis

/-- Along the axis, one of the rectangles is flat inside the other. -/
def EitherFlat (axis : Axis) (r s : Rect) : Prop := r.FlatIn axis s ∨ s.FlatIn axis r

theorem near_le_far (h : r.NonNeg) (axis : Axis) : r.near axis ≤ r.far axis := by
  obtain ⟨hwidth, hheight⟩ := h
  apply Int.le_add_of_nonneg_right
  cases axis
  · exact hheight
  · exact hwidth

theorem positive_iff_forall_axis : r.Positive ↔ ∀ axis, r.near axis < r.far axis := by
  simp only [Axis.forall_iff, near, far, Pass.extent, Positive]
  omega

theorem overlaps_iff_forall_axis :
    r.Overlaps s ↔ ∀ axis, r.near axis < s.far axis ∧ s.near axis < r.far axis := by
  simp only [Axis.forall_iff, near, far, Pass.extent, Overlaps, right, bottom]
  omega

/-- A row and a column that run through both rectangles meet in a pixel of both. -/
theorem sharesPixel_iff_forall_axis : r.SharesPixel s ↔ ∀ axis, r.ShareLine axis s := by
  rw [Axis.forall_iff]
  constructor
  · rintro ⟨px, py, ⟨hrx, hrx', hry, hry'⟩, hsx, hsx', hsy, hsy'⟩
    exact ⟨⟨py, ⟨hry, hry'⟩, hsy, hsy'⟩, px, ⟨hrx, hrx'⟩, hsx, hsx'⟩
  · rintro ⟨⟨py, ⟨hry, hry'⟩, hsy, hsy'⟩, px, ⟨hrx, hrx'⟩, hsx, hsx'⟩
    exact ⟨px, py, ⟨hrx, hrx', hry, hry'⟩, hsx, hsx', hsy, hsy'⟩

/-- The farther of the two near edges is a line of both, if any is. -/
theorem shareLine_iff {axis : Axis} :
    r.ShareLine axis s ↔ (r.near axis < s.far axis ∧ s.near axis < r.far axis) ∧
      r.near axis < r.far axis ∧ s.near axis < s.far axis := by
  constructor
  · rintro ⟨place, hr, hs⟩
    omega
  · rintro ⟨meet, hr, hs⟩
    exact ⟨max (r.near axis) (s.near axis), by omega, by omega⟩

theorem EitherFlat.not_shareLine {axis : Axis} (h : r.EitherFlat axis s) :
    ¬ r.ShareLine axis s := by
  rw [shareLine_iff]
  unfold EitherFlat FlatIn at h
  omega

/-- What the edges say along one axis: a common line, or one rectangle flat inside the other. -/
theorem meet_iff (hr : r.NonNeg) (hs : s.NonNeg) (axis : Axis) :
    r.near axis < s.far axis ∧ s.near axis < r.far axis ↔
      r.ShareLine axis s ∨ r.EitherFlat axis s := by
  have hr := near_le_far hr axis
  have hs := near_le_far hs axis
  rw [shareLine_iff]
  unfold EitherFlat FlatIn
  omega

/-! ## Both axes -/

/-- Rectangles share a pixel exactly if they overlap and both have one. -/
theorem sharesPixel_iff : r.SharesPixel s ↔ r.Overlaps s ∧ r.Positive ∧ s.Positive := by
  simp only [sharesPixel_iff_forall_axis, shareLine_iff, overlaps_iff_forall_axis,
    positive_iff_forall_axis, forall_and]

/-- Along each axis the rectangles share a line or one is flat inside the other, and along some axis
one is. -/
def MeetFlat (r s : Rect) : Prop :=
  (∀ axis, r.ShareLine axis s ∨ r.EitherFlat axis s) ∧ ∃ axis, r.EitherFlat axis s

/-- Rectangles that meet flat are those that overlap without a pixel. -/
theorem meetFlat_iff (hr : r.NonNeg) (hs : s.NonNeg) :
    r.MeetFlat s ↔ r.Overlaps s ∧ ¬ r.SharesPixel s := by
  have overlap : r.Overlaps s ↔ ∀ axis, r.ShareLine axis s ∨ r.EitherFlat axis s := by
    rw [overlaps_iff_forall_axis]
    exact forall_congr' (meet_iff hr hs)
  rw [MeetFlat, overlap, sharesPixel_iff_forall_axis]
  refine and_congr_right fun meet => ⟨?_, ?_⟩
  · rintro ⟨axis, flat⟩ share
    exact flat.not_shareLine (share axis)
  · intro apart
    obtain ⟨axis, unshared⟩ := Classical.not_forall.mp apart
    exact ⟨axis, (meet axis).resolve_left unshared⟩

/-- What it says of two rectangles that they overlap, or that they do not. -/
structure OverlapReading (r s : Rect) : Prop where
  /-- No shared pixel is missed. -/
  noticed : r.SharesPixel s → r.Overlaps s
  positive : r.Positive → s.Positive → (r.Overlaps s ↔ r.SharesPixel s)
  /-- The reading is right for all rectangles but those that meet flat. -/
  right_iff : (r.Overlaps s ↔ r.SharesPixel s) ↔ ¬ r.MeetFlat s

/-- **Overlapping means sharing a pixel, unless the rectangles meet flat.** Take any two rectangles
without a negative size. If a pixel belongs to both, they overlap. If both have a pixel, they overlap
exactly if a pixel belongs to both. In general that holds unless they meet flat: along some axis one
of them has no length and lies strictly between the edges of the other, and so it is along the other
axis, or they have a line in common there. -/
theorem overlapReading (hr : r.NonNeg) (hs : s.NonNeg) : r.OverlapReading s := by
  have noticed : r.SharesPixel s → r.Overlaps s := fun shared => (sharesPixel_iff.mp shared).1
  refine ⟨noticed, ?_, ?_⟩
  · intro positive positive'
    rw [sharesPixel_iff]
    exact ⟨fun overlap => ⟨overlap, positive, positive'⟩, And.left⟩
  · rw [meetFlat_iff hr hs]
    constructor
    · rintro reading ⟨overlap, unshared⟩
      exact unshared (reading.mp overlap)
    · intro notFlat
      refine ⟨fun overlap => ?_, noticed⟩
      exact Classical.not_not.mp fun unshared => notFlat ⟨overlap, unshared⟩

/-- A row and a column without a thickness that cross: they overlap, and neither has a pixel. -/
theorem overlapReading_crossed :
    (⟨0, 5, 10, 0⟩ : Rect).NonNeg ∧ (⟨5, 0, 0, 10⟩ : Rect).NonNeg ∧
      (⟨0, 5, 10, 0⟩ : Rect).OverlapReading ⟨5, 0, 0, 10⟩ ∧
      (⟨0, 5, 10, 0⟩ : Rect).Overlaps ⟨5, 0, 0, 10⟩ ∧
      ¬ (⟨0, 5, 10, 0⟩ : Rect).SharesPixel ⟨5, 0, 0, 10⟩ := by
  have reading : (⟨0, 5, 10, 0⟩ : Rect).OverlapReading ⟨5, 0, 0, 10⟩ :=
    overlapReading (by decide) (by decide)
  have flat : (⟨0, 5, 10, 0⟩ : Rect).MeetFlat ⟨5, 0, 0, 10⟩ := by
    refine ⟨Axis.forall_iff.mpr ⟨.inr (.inl ?_), .inr (.inr ?_)⟩, .vertical, .inl ?_⟩ <;>
      exact ⟨by decide, by decide, by decide⟩
  refine ⟨by decide, by decide, reading, by decide, fun shared => ?_⟩
  exact reading.right_iff.mp ⟨fun _ => shared, reading.noticed⟩ flat

/-- Rectangles may overlap without a common pixel: a rule without a length overlaps the tile that it
lies on. -/
theorem not_forall_overlaps_iff_sharesPixel :
    ¬ ∀ r s : Rect, r.NonNeg → s.NonNeg → (r.Overlaps s ↔ r.SharesPixel s) := by
  intro reads
  obtain ⟨px, py, ⟨hleft, hright, _⟩, _⟩ :=
    (reads ⟨13, 0, 0, 1⟩ ⟨0, 0, 26, 10⟩ (by decide) (by decide)).mp (by decide)
  simp only [right] at hleft hright
  omega

end Rect

/-- A layout with such a rule and such a tile, in a slot of 26 pixels for two margins of 13. -/
example :
    ((Node.stack .vertical [.separator .horizontal none, .tile (Tile.ofContent "A")] none).resolve
        ⟨0, 0, 26, 10⟩ Profile.waveshare2in9).map (fun out => out.walk.map Node.rect?) =
      .ok [none, some ⟨13, 0, 0, 1⟩, some ⟨0, 0, 26, 10⟩] := by rfl

end PixelLayout
