import PixelLayout.Proofs.Containment
import PixelLayout.Proofs.Declared

/-!
# Items of a list, shown and beyond

A list gives its items slots of one height, the whole quotient of its own height by the number of
items that it shows. The slots follow each other without a gap from the top edge of the list on, past
its bottom edge where there are more items.

The items that the list shows lie inside it, and no two items overlap. But the slots of the items
shown do not fill the list, unless its height divides evenly: what the division leaves, less than a
pixel for each of them, stays over below the last one. The first item beyond starts there, inside the
list.

**The law** (`listedIn_of_resolve`) says how far each item beyond starts above the bottom edge. All of
them start at or below it exactly if there are none, or the number of items shown divides the height.
-/

namespace PixelLayout

namespace Pass

/-- The items of a list in an area are laid out in slots of one height, `count` of which are meant to
fill the area. -/
structure ListedIn (d : Rect) (margin count : Int) (items placed : List Tile) : Prop where
  same : List.Forall₂ Tile.SameDeclaration placed items
  slot : ∀ (i : Nat) (t : Tile), placed[i]? = some t →
    t.rect = some ⟨d.x + margin, d.y + i * (d.height / count), d.width - 2 * margin,
      d.height / count⟩
  shown : ∀ (i : Nat) (t : Tile), placed[i]? = some t → i < count →
    ∃ r, t.rect = some r ∧ d.Contains r
  apart : placed.Pairwise fun t u =>
    ∀ r s, t.rect = some r → u.rect = some s → ¬ r.Overlaps s
  /-- What the division leaves has to be made up for by the items between. -/
  beyond : ∀ (i : Nat) (t : Tile) (r : Rect), placed[i]? = some t → count ≤ i → t.rect = some r →
    d.bottom - r.y ≤ d.height % count ∧
      (d.bottom ≤ r.y ↔ d.height % count ≤ (i - count) * (d.height / count))
  allBeyond : (∀ (i : Nat) (t : Tile) (r : Rect), placed[i]? = some t → count ≤ i →
      t.rect = some r → d.bottom ≤ r.y) ↔ items.length ≤ count ∨ count ∣ d.height

/-! ## Areas of items -/

/-- How far above the bottom edge of its list an item starts: by what the division leaves, less the
heights of the items beyond that come before it. -/
theorem bottom_sub_itemArea (d : Rect) (margin count : Int) (i : Nat) :
    d.bottom - (itemArea d margin (d.height / count) i).y =
      d.height % count - (i - count) * (d.height / count) := by
  have division := Int.mul_ediv_add_emod d.height count
  rw [Int.sub_mul]
  simp only [itemArea, Rect.bottom]
  omega

theorem start_beyond {d : Rect} (hheight : 0 ≤ d.height) (margin : Int) {count : Int}
    (hcount : 0 < count) {i : Nat} (hi : count ≤ i) :
    d.bottom - (itemArea d margin (d.height / count) i).y ≤ d.height % count ∧
      (d.bottom ≤ (itemArea d margin (d.height / count) i).y ↔
        d.height % count ≤ (i - count) * (d.height / count)) := by
  have start := bottom_sub_itemArea d margin count i
  have between : 0 ≤ (i - count) * (d.height / count) :=
    Int.mul_nonneg (by omega) (Int.ediv_nonneg hheight (Int.le_of_lt hcount))
  omega

/-- The first item beyond starts at the bottom edge exactly if the division leaves nothing. -/
theorem start_first_beyond {d : Rect} (margin : Int) {count : Int} (hcount : 0 < count) {i : Nat}
    (hi : i = count) :
    d.bottom ≤ (itemArea d margin (d.height / count) i).y ↔ count ∣ d.height := by
  have start := bottom_sub_itemArea d margin count i
  have rest := Int.emod_nonneg d.height (Int.ne_of_gt hcount)
  rw [hi, Int.sub_self, Int.zero_mul] at start
  rw [Int.dvd_iff_emod_eq_zero]
  omega

/-! ## The items of a list -/

theorem listedIn_of_placeItems {p : Profile} {d : Rect} {count : Int} {items : List Tile}
    (hd : d.NonNeg) (hmargin : 0 ≤ p.listItemMargin) (hcount : 0 < count)
    (h : (placeItems p d (d.height / count) 0 (items.map Tile.clear)).fault = none) :
    ListedIn d p.listItemMargin count items
      (placeItems p d (d.height / count) 0 (items.map Tile.clear)).result := by
  have hlength : 0 ≤ d.height / count := Int.ediv_nonneg hd.2 (Int.le_of_lt hcount)
  have same : List.Forall₂ Tile.SameDeclaration
      (placeItems p d (d.height / count) 0 (items.map Tile.clear)).result items := by
    rw [Tile.forall₂_sameDeclaration_iff, clear_placeItems, List.map_map]
    rfl
  generalize hplaced : (placeItems p d (d.height / count) 0 (items.map Tile.clear)).result = placed
    at same ⊢
  have slot {i : Nat} {t : Tile} (ht : placed[i]? = some t) :
      t.rect = some (itemArea d p.listItemMargin (d.height / count) i) := by
    rw [← hplaced] at ht
    rw [(placeItems_rect h ht).2, Nat.zero_add]
  refine ⟨same, fun i t ht => slot ht, ?_, ?_, ?_, ?_, ?_⟩
  · intro i t ht hi
    exact ⟨_, slot ht, contains_itemArea hd hmargin hi⟩
  · rw [List.pairwise_iff_getElem]
    intro i j hi hj hij r s hr hs
    rw [slot (List.getElem?_eq_getElem hi), Option.some.injEq] at hr
    rw [slot (List.getElem?_eq_getElem hj), Option.some.injEq] at hs
    subst hr hs
    exact (itemArea_apart d _ hlength hij).not_overlaps
  · intro i t r ht hi hr
    rw [slot ht, Option.some.injEq] at hr
    subst hr
    exact start_beyond hd.2 _ hcount hi
  · intro below
    rcases Int.lt_or_le count items.length with more | fit
    · -- the first item beyond is there, and starts lowest above the bottom edge
      obtain ⟨first, rfl⟩ := Int.eq_ofNat_of_zero_le (Int.le_of_lt hcount)
      have there : first < placed.length := by
        rw [same.length_eq]
        omega
      have hfirst := List.getElem?_eq_getElem there
      have start := below first _ _ hfirst (Int.le_refl _) (slot hfirst)
      exact .inr ((start_first_beyond _ hcount rfl).mp start)
    · exact .inl fit
  · rintro (fit | divides) i t r ht hi hr
    · have there := (List.getElem?_eq_some_iff.mp ht).1
      rw [same.length_eq] at there
      omega
    · rw [slot ht, Option.some.injEq] at hr
      subst hr
      have between : 0 ≤ (i - count) * (d.height / count) := Int.mul_nonneg (by omega) hlength
      rw [(start_beyond hd.2 _ hcount hi).2, Int.emod_eq_zero_of_dvd divides]
      exact between

end Pass

namespace Node

variable {items : List Tile} {count : Int} {q : Option Rect} {d : Rect} {p : Profile} {out : Node}

/-- **Where the items of a list lie**, the ones it shows and the ones beyond. Take any list with any
number of items, any area without a negative size and any profile without a negative item margin. If
the list is laid out, it shows an item, it has the area as its rectangle, and its items follow each
other in slots of one height. Those that it shows lie inside it, and no two overlap. All those beyond
start at its bottom edge or below exactly if there are none or the number of items shown divides its
height; otherwise they may start above it, by less than a pixel for each item shown. -/
theorem listedIn_of_resolve (hd : d.NonNeg) (hmargin : 0 ≤ p.listItemMargin)
    (h : (list items count q).resolve d p = .ok out) :
    1 ≤ count ∧ ∃ placed, out = list placed count (some d) ∧
      Pass.ListedIn d p.listItemMargin count items placed := by
  have goes : (Visit.mk (.list items count q) d).halt p = none :=
    (walk_of_resolve h).1 _ List.mem_cons_self
  rw [← Visit.halt_clear] at goes
  obtain ⟨hcount, _⟩ := Pass.halt_list.mp goes
  rw [resolve_eq_ok_iff, resolveInPlace, clear, Pass.place_list_of_halt goes, Progress.mk.injEq] at h
  obtain ⟨rfl, hfault⟩ := h
  exact ⟨hcount, _, rfl, Pass.listedIn_of_placeItems hd hmargin hcount hfault⟩

/-- Five items in a list of three, in a height that leaves two pixels over: the first item beyond
starts inside the list, and the second one below it. -/
theorem listedIn_of_resolve_five :
    ∃ placed, (list (["1", "2", "3", "4", "5"].map Tile.ofContent) 3 none).resolve ⟨0, 20, 100, 11⟩
        Profile.waveshare2in9 = .ok (list placed 3 (some ⟨0, 20, 100, 11⟩)) ∧
      Pass.ListedIn ⟨0, 20, 100, 11⟩ 1 3 (["1", "2", "3", "4", "5"].map Tile.ofContent) placed ∧
      placed.map Tile.rect = [some ⟨1, 20, 98, 3⟩, some ⟨1, 23, 98, 3⟩, some ⟨1, 26, 98, 3⟩,
        some ⟨1, 29, 98, 3⟩, some ⟨1, 32, 98, 3⟩] := by
  have laid : (list (["1", "2", "3", "4", "5"].map Tile.ofContent) 3 none).resolve ⟨0, 20, 100, 11⟩
    Profile.waveshare2in9 = .ok _ := rfl
  obtain ⟨_, placed, hout, listed⟩ := listedIn_of_resolve (by decide) (by decide) laid
  cases hout
  exact ⟨_, laid, listed, rfl⟩

/-- An item beyond may start inside its list: three items shown in ten rows leave one row over, and
the fourth item starts there. -/
theorem not_forall_startsBeyond :
    ¬ ∀ (items placed : List Tile) (count : Int) (q : Option Rect) (d : Rect) (p : Profile),
      1 ≤ count → d.NonNeg → 0 ≤ p.listItemMargin →
      (list items count q).resolve d p = .ok (list placed count (some d)) →
        ∀ (i : Nat) (t : Tile) (r : Rect), placed[i]? = some t → count ≤ i → t.rect = some r →
          d.bottom ≤ r.y := by
  intro beyond
  have start := beyond (["1", "2", "3", "4"].map Tile.ofContent) _ 3 none ⟨0, 0, 100, 10⟩
    Profile.waveshare2in9 (by decide) (by decide) (by decide) rfl 3 _ _ rfl (by decide) rfl
  exact absurd start (by decide)

end Node

end PixelLayout
