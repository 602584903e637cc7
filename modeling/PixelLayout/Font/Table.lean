import PixelLayout.Geometry

/-!
# Font tables

The bitmap fonts of a display: each has a size, which is the height of its glyphs in pixels, and one
width that all its glyphs share. A table lists at least one font, all numbers are positive, and
sizes strictly descend, so a size names at most one font and the last font is the smallest.

`FontTable.ofEntries` is the only way into the type; it compares each size with the next one only,
which is enough because the order is transitive (`pairwise_of_neighboursDescend`).
-/

namespace PixelLayout

/-- One bitmap font. -/
structure BitmapFont where
  size : Int
  glyphWidth : Int
deriving DecidableEq

/-- Each number of the list is greater than the next one. -/
def neighboursDescend : List Int → Bool
  | a :: b :: rest => decide (b < a) && neighboursDescend (b :: rest)
  | _ => true

theorem pairwise_of_neighboursDescend :
    ∀ {ns : List Int}, neighboursDescend ns = true → ns.Pairwise (fun a b => b < a)
  | [], _ => .nil
  | [_], _ => List.pairwise_singleton _ _
  | a :: b :: rest, h => by
    simp only [neighboursDescend, Bool.and_eq_true, decide_eq_true_eq] at h
    have tail := pairwise_of_neighboursDescend h.2
    refine .cons (fun c hc => ?_) tail
    rcases List.mem_cons.mp hc with rfl | hc
    · exact h.1
    · exact Int.lt_trans (List.rel_of_pairwise_cons tail hc) h.1

/-- The fonts of a display, largest first. -/
structure FontTable where
  entries : List BitmapFont
  nonempty : entries ≠ []
  positive : ∀ f ∈ entries, 0 < f.size ∧ 0 < f.glyphWidth
  descending : (entries.map BitmapFont.size).Pairwise (fun a b => b < a)

/-- Why a list of fonts is no font table. -/
inductive FontTableFault where
  | empty
  | notPositive (font : BitmapFont)
  | notDescending (sizes : List Int)
deriving DecidableEq

namespace FontTable

/-- The font table with the given fonts, or the first reason why there is none. -/
def ofEntries (entries : List BitmapFont) : Except FontTableFault FontTable :=
  if nonempty : entries = [] then .error .empty
  else match positive : entries.find? (fun f => decide (f.size ≤ 0 ∨ f.glyphWidth ≤ 0)) with
    | some f => .error (.notPositive f)
    | none =>
      if descending : neighboursDescend (entries.map BitmapFont.size) = true then
        .ok ⟨entries, nonempty,
          fun f hf => by
            have := List.find?_eq_none.mp positive f hf
            simp only [decide_eq_true_eq, not_or, Int.not_le] at this
            exact this,
          pairwise_of_neighboursDescend descending⟩
      else .error (.notDescending (entries.map BitmapFont.size))

/-- The sizes on offer, largest first. -/
def sizes (t : FontTable) : List Int := t.entries.map BitmapFont.size

/-- The smallest size. -/
def smallest (t : FontTable) : Int := (t.entries.getLast t.nonempty).size

/-- The table offers a size. -/
def hasSize (t : FontTable) (size : Int) : Bool := t.entries.any fun f => f.size == size

/-- The width of one glyph at a size that the table offers. -/
def glyphWidth? (t : FontTable) (size : Int) : Option Int :=
  (t.entries.find? fun f => f.size == size).map BitmapFont.glyphWidth

end FontTable

end PixelLayout
