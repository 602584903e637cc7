import PixelLayout.Artifact.DrawCode
import PixelLayout.Pass

/-!
# Regions of a display

How the areas of a layout lie to each other. Two areas are **apart** when one of them ends before
the other starts, on some axis; what lies inside two areas that are apart is apart as well, also
where an area has no pixel at all. A stack cuts its area into **bands** along its axis, one for each
slot, and bands that do not share a slot are apart.

A rule may leave the area that it belongs to by the one pixel of its thickness, on the right or at
the bottom. A refresh leaves out the first and the last pixel of its tile. So a refresh **spares** a
rule that is within one pixel of being apart from the tile, and that holds for any rule of an area
that is apart from the area of the tile (`Apart.spares`).
-/

namespace PixelLayout

namespace Rect

/-- The rectangle has no negative size. -/
def NonNeg (r : Rect) : Prop := 0 ≤ r.width ∧ 0 ≤ r.height

instance (r : Rect) : Decidable r.NonNeg := inferInstanceAs (Decidable (_ ∧ _))

/-- The pixel in column `px` and row `py` belongs to the rectangle. -/
def Covers (r : Rect) (px py : Int) : Prop :=
  r.x ≤ px ∧ px < r.right ∧ r.y ≤ py ∧ py < r.bottom

/-- One of the rectangles ends before the other starts, on some axis. -/
def Apart (r s : Rect) : Prop :=
  r.right ≤ s.x ∨ s.right ≤ r.x ∨ r.bottom ≤ s.y ∨ s.bottom ≤ r.y

/-- The rectangle with one more column on the right and one more row at the bottom. -/
def grown (r : Rect) : Rect := ⟨r.x, r.y, r.width + 1, r.height + 1⟩

theorem Contains.refl (r : Rect) : r.Contains r :=
  ⟨Int.le_refl _, Int.le_refl _, Int.le_refl _, Int.le_refl _⟩

theorem Contains.trans {r s t : Rect} (hrs : r.Contains s) (hst : s.Contains t) : r.Contains t :=
  ⟨Int.le_trans hrs.1 hst.1, Int.le_trans hrs.2.1 hst.2.1, Int.le_trans hst.2.2.1 hrs.2.2.1,
    Int.le_trans hst.2.2.2 hrs.2.2.2⟩

theorem Contains.grown {r s : Rect} (h : r.Contains s) : r.grown.Contains s.grown := by
  simp only [Contains, Rect.grown, right, bottom] at h ⊢
  omega

theorem Apart.symm {r s : Rect} (h : r.Apart s) : s.Apart r := by
  unfold Apart at h ⊢
  omega

/-- What lies inside rectangles that are apart is apart. -/
theorem Apart.mono {r s r' s' : Rect} (h : r.Apart s) (hr : r.Contains r') (hs : s.Contains s') :
    r'.Apart s' := by
  simp only [Contains, Apart] at *
  omega

theorem Apart.not_overlaps {r s : Rect} (h : r.Apart s) : ¬ r.Overlaps s := by
  unfold Apart at h
  unfold Overlaps
  omega

/-! ## Bands -/

/-- The part of an area between two distances from its near edge along an axis. -/
def band (axis : Axis) (d : Rect) (lo hi : Int) : Rect :=
  match axis with
  | .vertical => ⟨d.x, d.y + lo, d.width, hi - lo⟩
  | .horizontal => ⟨d.x + lo, d.y, hi - lo, d.height⟩

theorem band_contains (axis : Axis) (d : Rect) {lo hi lo' hi' : Int} (hlo : lo ≤ lo')
    (hhi : hi' ≤ hi) : (d.band axis lo hi).Contains (d.band axis lo' hi') := by
  cases axis <;> simp only [band, Contains, right, bottom] <;> omega

theorem band_nonNeg (axis : Axis) {d : Rect} (hd : d.NonNeg) {lo hi : Int} (h : lo ≤ hi) :
    (d.band axis lo hi).NonNeg := by
  cases axis <;> simp only [band, NonNeg] at hd ⊢ <;> omega

/-- Bands one behind the other are apart. -/
theorem band_apart (axis : Axis) (d : Rect) {lo hi lo' hi' : Int} (h : hi ≤ lo') :
    (d.band axis lo hi).Apart (d.band axis lo' hi') := by
  cases axis <;> simp only [band, Apart, right, bottom] <;> omega

/-- Bands up to the length of an area lie inside the area. -/
theorem contains_band {axis : Axis} {d : Rect} {lo hi : Int} (hlo : 0 ≤ lo)
    (hhi : hi ≤ Pass.extent axis d) : d.Contains (d.band axis lo hi) := by
  cases axis <;> simp only [band, Pass.extent, Contains, right, bottom] at hhi ⊢ <;> omega

/-! ## Refreshes and rules -/

/-- A refresh of the tile `r` leaves every pixel of `s` alone. -/
def Spares (r s : Rect) : Prop :=
  r.right ≤ s.x + 1 ∨ s.right ≤ r.x + 1 ∨ r.bottom ≤ s.y + 1 ∨ s.bottom ≤ r.y + 1

/-- A refresh of a tile spares a rule that leaves an area apart from the tile's by one pixel. -/
theorem Apart.spares {r s r' s' : Rect} (h : r.Apart s) (hr : r.Contains r')
    (hs : s.grown.Contains s') : r'.Spares s' := by
  simp only [Contains, Rect.grown, Apart, Spares, right, bottom] at *
  omega

end Rect

/-- The pixel in column `px` and row `py` is drawn again by the refresh. -/
def DrawCode.Refresh.Covers (area : DrawCode.Refresh) (px py : Int) : Prop :=
  area.left ≤ px ∧ px < area.right ∧ area.top ≤ py ∧ py < area.bottom

/-- A refresh shares no pixel with what it spares. -/
theorem Rect.Spares.not_covers {r s : Rect} (h : r.Spares s) (px py : Int) :
    ¬ ((DrawCode.refresh r).Covers px py ∧ s.Covers px py) := by
  simp only [Rect.Spares, DrawCode.Refresh.Covers, DrawCode.refresh, Rect.Covers] at h ⊢
  omega

end PixelLayout
