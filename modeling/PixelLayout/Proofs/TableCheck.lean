import PixelLayout.Proofs.Validated

/-!
# The check of a font table is enough for its look-ups

A configuration gives a font table as a list of pairs. The check on it looks at each number for
itself and at each size next to its neighbour; the look-ups take the first font that has a size,
and the last font for the smallest. What joins the two is the order between all sizes: it follows
from the order between neighbours (`exists_ofEntries_iff`), makes the last font the least
(`isLeast_smallest`), and leaves one font to a size, so that the first one found is the only one.

**The law** (`read_entriesValue_lawful`): pairs are accepted exactly if there are some, all numbers
are positive and each size is above every later one; and each look-up in an accepted table answers
as the table as a whole says.
-/

namespace PixelLayout.FontTable

variable {entries : List BitmapFont} {t : FontTable} {size : Int}

/-! ## The check -/

theorem entries_of_ofEntries (h : ofEntries entries = .ok t) : t.entries = entries := by
  unfold ofEntries at h
  split at h
  · cases h
  · split at h
    · cases h
    · split at h
      · cases h
        rfl
      · cases h

/-- The order between all sizes, place by place. -/
theorem descending_iff_getElem :
    (entries.map BitmapFont.size).Pairwise (fun a b => b < a) ↔
      ∀ i j (hij : i < j) (hj : j < entries.length), entries[j].size < entries[i].size := by
  rw [List.pairwise_map, List.pairwise_iff_getElem]
  exact ⟨fun h i j hij hj => h i j (hij.trans hj) hj hij, fun h i j _ hj hij => h i j hij hj⟩

/-- **The check accepts the font tables.** What it finds in neighbours holds between any two
places, since a table that it yields carries the order of all its sizes. -/
theorem exists_ofEntries_iff :
    (∃ t, ofEntries entries = .ok t) ↔
      entries ≠ [] ∧ (∀ f ∈ entries, 0 < f.size ∧ 0 < f.glyphWidth) ∧
        ∀ i j (hij : i < j) (hj : j < entries.length), entries[j].size < entries[i].size := by
  constructor
  · rintro ⟨t, h⟩
    obtain rfl := entries_of_ofEntries h
    exact ⟨t.nonempty, t.positive, descending_iff_getElem.mp t.descending⟩
  · rintro ⟨nonempty, positive, descending⟩
    exact ⟨_, ofEntries_entries ⟨entries, nonempty, positive,
      descending_iff_getElem.mpr descending⟩⟩

/-! ## The look-ups -/

theorem isLeast_smallest (t : FontTable) : IsLeast {s | s ∈ t.sizes} t.smallest := by
  constructor
  · exact List.mem_map_of_mem (List.getLast_mem t.nonempty)
  · intro s hs
    obtain ⟨f, hf, rfl⟩ := List.mem_map.mp hs
    exact smallest_le hf

/-- The sizes on offer are those that have a glyph width. -/
theorem hasSize_iff_exists_glyphWidth :
    t.hasSize size = true ↔ ∃ width, t.glyphWidth? size = some width := by
  refine ⟨exists_glyphWidth, ?_⟩
  rintro ⟨width, h⟩
  obtain ⟨f, found, rfl⟩ := Option.map_eq_some_iff.mp h
  have named : f.size = size := by simpa only [beq_iff_eq] using List.find?_some found
  exact hasSize_iff.mpr ⟨f, List.mem_of_find?_eq_some found, named⟩

/-- At a size that is not on offer a text gets no offset, and the fault names the sizes that are. -/
theorem textOffset_eq_error (h : t.hasSize size = false) (length : Nat) (width height : Int) :
    t.textOffset length size width height = .error (.unknownSize size t.sizes) := by
  rw [textOffset]
  cases found : t.glyphWidth? size with
  | none => rfl
  | some glyphWidth =>
    have offered := hasSize_iff_exists_glyphWidth.mpr ⟨glyphWidth, found⟩
    rw [h] at offered
    cases offered

/-- **The check is enough for the look-ups.** For pairs of numbers, however many: they are read as
a font table exactly if there is one at least, all numbers are positive and every size is above
every later one. In the table that is read, `smallest` is the least size; a size is on offer exactly
if its glyph width is found, and otherwise no text gets an offset at it; and the width found for the
size of an entry is that of the very entry. -/
theorem read_entriesValue_lawful (entries : List BitmapFont) :
    ((∃ t, read (entriesValue entries) = .ok t) ↔
      entries ≠ [] ∧ (∀ f ∈ entries, 0 < f.size ∧ 0 < f.glyphWidth) ∧
        ∀ i j (hij : i < j) (hj : j < entries.length), entries[j].size < entries[i].size) ∧
    ∀ t, read (entriesValue entries) = .ok t →
      t.entries = entries ∧
      IsLeast {s | s ∈ t.sizes} t.smallest ∧
      (∀ s, t.hasSize s = true ↔ ∃ width, t.glyphWidth? s = some width) ∧
      (∀ s, t.hasSize s = false → ∀ length width height,
        t.textOffset length s width height = .error (.unknownSize s t.sizes)) ∧
      ∀ f ∈ entries, t.glyphWidth? f.size = some f.glyphWidth := by
  constructor
  · rw [← exists_ofEntries_iff]
    exact exists_congr fun t => read_entriesValue
  · intro t h
    obtain rfl := entries_of_ofEntries (read_entriesValue.mp h)
    exact ⟨rfl, t.isLeast_smallest, fun s => hasSize_iff_exists_glyphWidth,
      fun s offered => textOffset_eq_error offered, fun f hf => glyphWidth?_of_mem hf⟩

/-- Three fonts whose glyph widths are in no order. -/
theorem read_entriesValue_lawful_crossed :
    let t : FontTable := ⟨[⟨24, 14⟩, ⟨20, 17⟩, ⟨8, 5⟩], by decide, by decide, by decide⟩
    IsLeast {s | s ∈ t.sizes} 8 ∧ t.glyphWidth? 20 = some 17 ∧
      t.textOffset 3 16 60 40 = .error (.unknownSize 16 [24, 20, 8]) ∧
      ¬ ∃ t', read (entriesValue (t.entries ++ [⟨20, 17⟩])) = .ok t' := by
  intro t
  obtain ⟨_, lawful⟩ := read_entriesValue_lawful t.entries
  obtain ⟨_, least, _, unknown, own⟩ := lawful t t.read_toValue
  refine ⟨least, own ⟨20, 17⟩ (by decide), unknown 16 (by decide) 3 60 40, ?_⟩
  rw [(read_entriesValue_lawful _).1]
  rintro ⟨_, _, descending⟩
  exact absurd (descending 2 3 (by decide) (by decide)) (by decide)

end PixelLayout.FontTable
