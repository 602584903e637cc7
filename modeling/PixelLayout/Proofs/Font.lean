import Mathlib.Data.List.Nodup
import Mathlib.Order.Bounds.Basic
import PixelLayout.Font.Fit

/-!
# Look-ups in a font table

A size that a table offers has a glyph width, and the size that fitting picks is on offer. So a text
whose size is on offer, or is left to fitting, always gets an offset.

Sizes descend, so a size names one font (`glyphWidth?_of_mem`), and the first font that leaves room
around a text is the largest (`exists_fit`). Glyph widths may be in any order.

**The law** (`fit_optimal`): fitting picks the largest size that leaves room, or else the smallest
that there is. It is monotone, although two searches may stop at different fonts, or find none: a
font that leaves room around a text does so around a shorter one in a larger area
(`roomySizes_subset`), and no size is below the one that is picked where no font leaves room.
-/

namespace PixelLayout.FontTable

variable {t : FontTable} {size : Int}

theorem hasSize_iff : t.hasSize size = true ↔ ∃ f ∈ t.entries, f.size = size := by
  simp only [hasSize, List.any_eq_true, beq_iff_eq]

/-- A size on offer has a glyph width. -/
theorem exists_glyphWidth (h : t.hasSize size = true) :
    ∃ width, t.glyphWidth? size = some width := by
  obtain ⟨f, hf, hsize⟩ := hasSize_iff.mp h
  cases found : t.entries.find? fun f => f.size == size with
  | some g => exact ⟨g.glyphWidth, by rw [glyphWidth?, found]; rfl⟩
  | none =>
    have := List.find?_eq_none.mp found f hf
    simp only [hsize, beq_self_eq_true, not_true_eq_false] at this

/-- The size that fitting picks is on offer. -/
theorem hasSize_fit (t : FontTable) (length : Nat) (width height : Int) :
    t.hasSize (t.fit length width height) = true := by
  rw [hasSize_iff]
  unfold fit
  split
  next f found => exact ⟨f, List.mem_of_find?_eq_some found, rfl⟩
  next => exact ⟨t.entries.getLast t.nonempty, List.getLast_mem t.nonempty, rfl⟩

/-- A text gets an offset at every size on offer. -/
theorem exists_textOffset (h : t.hasSize size = true) (length : Nat) (width height : Int) :
    ∃ offset, t.textOffset length size width height = .ok offset := by
  obtain ⟨glyphWidth, hwidth⟩ := exists_glyphWidth h
  exact ⟨centre length glyphWidth size width height, by rw [textOffset, hwidth]⟩

/-- A font is the only one of its size. -/
theorem glyphWidth?_of_mem {f : BitmapFont} (hf : f ∈ t.entries) :
    t.glyphWidth? f.size = some f.glyphWidth := by
  have single : (t.entries.map BitmapFont.size).Nodup :=
    t.descending.imp fun h => (Int.ne_of_lt h).symm
  cases found : t.entries.find? fun g => g.size == f.size with
  | none =>
    have := List.find?_eq_none.mp found f hf
    simp only [beq_self_eq_true, not_true_eq_false] at this
  | some g =>
    have same : g.size = f.size := by simpa only [beq_iff_eq] using List.find?_some found
    have hg := List.mem_of_find?_eq_some found
    rw [glyphWidth?, found, Option.map_some, List.inj_on_of_nodup_map single hg hf same]

theorem fits_iff {f : BitmapFont} {length : Nat} {width height : Int} :
    fits f length width height = true ↔ f.glyphWidth * length < width ∧ f.size < height :=
  decide_eq_true_iff

/-- If a font leaves room around a text, fitting picks the largest that does. -/
theorem exists_fit {length : Nat} {width height : Int}
    (h : ∃ f ∈ t.entries, fits f length width height = true) :
    ∃ f ∈ t.entries, t.fit length width height = f.size ∧ fits f length width height = true ∧
      ∀ g ∈ t.entries, fits g length width height = true → g.size ≤ f.size := by
  unfold fit
  cases found : t.entries.find? fun f => fits f length width height with
  | none =>
    obtain ⟨f, hf, hroom⟩ := h
    exact absurd hroom (List.find?_eq_none.mp found f hf)
  | some f =>
    obtain ⟨room, larger, smaller, hentries, hlarger⟩ := List.find?_eq_some_iff_append.mp found
    refine ⟨f, List.mem_of_find?_eq_some found, rfl, room, ?_⟩
    intro g hg hroom
    have order := t.descending
    rw [hentries, List.map_append, List.map_cons] at order
    rw [hentries] at hg
    rcases List.mem_append.mp hg with hg | hg
    · have tight := hlarger g hg
      rw [hroom] at tight
      cases tight
    · rcases List.mem_cons.mp hg with rfl | hg
      · exact Int.le_refl _
      · have behind := (List.pairwise_append.mp order).2.1
        exact Int.le_of_lt (List.rel_of_pairwise_cons behind (List.mem_map_of_mem hg))

/-! ## Optimal and monotone -/

/-- The sizes at which a font leaves room around a text of `length` characters in an area. -/
def roomySizes (t : FontTable) (length : Nat) (width height : Int) : Set Int :=
  {s | ∃ f ∈ t.entries, f.size = s ∧ f.glyphWidth * length < width ∧ f.size < height}

theorem isGreatest_fit {length : Nat} {width height : Int}
    (room : (t.roomySizes length width height).Nonempty) :
    IsGreatest (t.roomySizes length width height) (t.fit length width height) := by
  obtain ⟨_, f, hf, _, hroom⟩ := room
  obtain ⟨g, hg, hfit, hgroom, largest⟩ := exists_fit ⟨f, hf, fits_iff.mpr hroom⟩
  rw [hfit]
  refine ⟨⟨g, hg, rfl, fits_iff.mp hgroom⟩, ?_⟩
  rintro _ ⟨f', hf', rfl, hroom'⟩
  exact largest f' hf' (fits_iff.mpr hroom')

/-- The last font is the smallest. -/
theorem smallest_le {f : BitmapFont} (hf : f ∈ t.entries) : t.smallest ≤ f.size := by
  have order := t.descending
  rw [← List.dropLast_append_getLast t.nonempty, List.map_append, List.map_singleton] at order
  rw [← List.dropLast_append_getLast t.nonempty] at hf
  rcases List.mem_append.mp hf with hf | hf
  · have behind := (List.pairwise_append.mp order).2.2
    exact Int.le_of_lt (behind f.size (List.mem_map_of_mem hf) _ (List.mem_singleton.mpr rfl))
  · rw [List.mem_singleton.mp hf]
    exact Int.le_refl _

theorem smallest_le_of_hasSize (h : t.hasSize size = true) : t.smallest ≤ size := by
  obtain ⟨f, hf, rfl⟩ := hasSize_iff.mp h
  exact smallest_le hf

/-- Where no font leaves room, fitting picks the smallest size. -/
theorem fit_of_no_room {length : Nat} {width height : Int}
    (crowded : t.roomySizes length width height = ∅) :
    t.fit length width height = t.smallest := by
  unfold fit
  split
  next f found =>
    have leaves := List.find?_some found
    have roomy : f.size ∈ t.roomySizes length width height :=
      ⟨f, List.mem_of_find?_eq_some found, rfl, fits_iff.mp leaves⟩
    rw [crowded] at roomy
    cases roomy
  next => rfl

/-- A text leaves room at no fewer sizes when it is shorter, or its area larger. -/
theorem roomySizes_subset {length length' : Nat} {width width' height height' : Int}
    (hlength : length' ≤ length) (hwidth : width ≤ width') (hheight : height ≤ height') :
    t.roomySizes length width height ⊆ t.roomySizes length' width' height' := by
  rintro _ ⟨f, hf, rfl, across, down⟩
  have shorter : f.glyphWidth * length' ≤ f.glyphWidth * length :=
    Int.mul_le_mul_of_nonneg_left (by omega) (Int.le_of_lt (t.positive f hf).2)
  exact ⟨f, hf, rfl, by omega, by omega⟩

/-- Fitting picks no smaller size for a shorter text or in a larger area. By what the first search
finds: a size that the second one may take too, or none. -/
theorem fit_mono {length length' : Nat} {width width' height height' : Int}
    (hlength : length' ≤ length) (hwidth : width ≤ width') (hheight : height ≤ height') :
    t.fit length width height ≤ t.fit length' width' height' := by
  have more := roomySizes_subset (t := t) hlength hwidth hheight
  rcases (t.roomySizes length width height).eq_empty_or_nonempty with crowded | room
  · rw [fit_of_no_room crowded]
    exact smallest_le_of_hasSize (hasSize_fit t length' width' height')
  · exact (isGreatest_fit (room.mono more)).2 (more (isGreatest_fit room).1)

/-- **Fitting is optimal and monotone.** For every table, text and area it picks the largest size at
which the text is narrower than the area and lower than it, or the smallest size of the table if
there is none. The size never falls when the area grows, and never rises when the text does. -/
theorem fit_optimal (t : FontTable) (content : String) (width height : Int) :
    ((t.roomySizes content.length width height).Nonempty →
      IsGreatest (t.roomySizes content.length width height)
        (t.fit content.length width height)) ∧
    (t.roomySizes content.length width height = ∅ →
      IsLeast {s | t.hasSize s = true} (t.fit content.length width height)) ∧
    ∀ (content' : String) (width' height' : Int), content'.length ≤ content.length →
      width ≤ width' → height ≤ height' →
        t.fit content.length width height ≤ t.fit content'.length width' height' := by
  refine ⟨isGreatest_fit, ?_, ?_⟩
  · intro crowded
    refine ⟨hasSize_fit t content.length width height, ?_⟩
    intro s offered
    rw [fit_of_no_room crowded]
    exact smallest_le_of_hasSize offered
  · intro content' width' height' hlength hwidth hheight
    exact fit_mono hlength hwidth hheight

/-- A table whose larger font has the narrower glyphs. -/
theorem fit_optimal_crossed :
    let t : FontTable := ⟨[⟨24, 14⟩, ⟨16, 20⟩], by decide, by decide, by decide⟩
    IsGreatest (t.roomySizes "Log".length 50 40) 24 ∧
      IsLeast {s | t.hasSize s = true} (t.fit "Log".length 50 20) ∧
      t.fit "Log".length 50 20 ≤ t.fit "Do".length 50 40 := by
  intro t
  obtain ⟨greatest, _, _⟩ := fit_optimal t "Log" 50 40
  obtain ⟨_, least, mono⟩ := fit_optimal t "Log" 50 20
  have none : ∀ f ∈ t.entries, ¬ (f.glyphWidth * "Log".length < 50 ∧ f.size < 20) := by decide
  have crowded : t.roomySizes "Log".length 50 20 = ∅ := by
    apply Set.eq_empty_of_forall_notMem
    rintro s ⟨f, hf, _, room⟩
    exact none f hf room
  exact ⟨greatest ⟨24, ⟨24, 14⟩, List.mem_cons_self, rfl, by decide, by decide⟩, least crowded,
    mono "Do" 50 40 (by decide) (by decide) (by decide)⟩

end PixelLayout.FontTable
