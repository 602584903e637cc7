import Mathlib.Data.Rat.Floor
import PixelLayout.Node.Build
import PixelLayout.Proofs.Cut
import PixelLayout.Proofs.Locality

/-!
# The cut of a split

A split cuts its height where the share says: the product of the two, rounded to a double if the
share is one, without its fraction. `Share.SoundCut` says what that gives for a height of up to
`2 ^ 53` pixels: a cut inside the height, at the floor of the exact product, or at the next pixel if
the product rounds up to that integer. `Node.soundCut_of_splitBy` proves it of every tree that
`Node.splitBy` builds, together with the two areas that a pass lays the halves out in, and with what
becomes of the cut when the height or the share grows.

Whole numbers up to `2 ^ 53` are doubles, so a product cannot be rounded across one
(`Binary64.unitsAt_nearestRank_between`): it stays at or above its floor, and at most reaches the
integer after it.
-/

namespace PixelLayout

open Binary64

/-- A quotient of at most `k` has the integer part `k` only if it is `k` itself. -/
theorem div_eq_iff_of_le_mul {a b k : Nat} (hb : 0 < b) (h : a ≤ k * b) :
    a / b = k ↔ (a : ℚ) / b = k := by
  rw [div_eq_iff (Nat.cast_ne_zero.mpr (Nat.ne_of_gt hb)), ← Nat.cast_mul, Nat.cast_inj]
  constructor
  · intro reached
    apply Nat.le_antisymm h
    rw [← reached]
    exact Nat.div_mul_le_self a b
  · intro whole
    rw [whole, Nat.mul_div_cancel _ hb]

namespace Share

/-- A share is accepted if it stands for a number between zero and one. -/
theorem isProper_iff {s : Share} :
    s.isProper = true ↔ ∃ v, s.value? = some v ∧ 0 ≤ v ∧ v ≤ 1 := by
  cases s with
  | whole n =>
    simp only [isProper, value?, decide_eq_true_eq, Option.some.injEq, exists_eq_left']
    exact_mod_cast Iff.rfl
  | flag b => cases b <;> simp [isProper, value?]
  | real x =>
    cases x with
    | nan => simp [isProper, value?, Binary64.le]
    | infinite t => cases t <;> simp [isProper, value?, Binary64.le, Binary64.zero, Binary64.one]
    | finite t r =>
      have one : (0 : ℚ) < unitsPerOne := Nat.cast_pos.mpr unitsPerOne_pos
      have low : Binary64.zero.le (.finite t r) = true ↔ 0 ≤ Binary64.value t r := by
        rw [Binary64.value, le_div_iff₀ one, zero_mul, Int.cast_nonneg_iff]
        exact decide_eq_true_iff
      have high : (Binary64.finite t r).le .one = true ↔ Binary64.value t r ≤ 1 := by
        rw [Binary64.value, div_le_one one, ← Int.cast_natCast, Int.cast_le, ← unitsAt_one]
        exact decide_eq_true_iff
      simp only [isProper, value?, Bool.and_eq_true, Option.some.injEq, exists_eq_left', low, high]

/-- The product as it is computed: exactly, for an integer or a truth value; for a double, the double
nearest to the exact product. -/
def Product (s : Share) (exact product : ℚ) : Prop :=
  match s with
  | real _ => ∃ t r, IsNearest exact t r ∧ product = Binary64.value t r
  | _ => product = exact

/-- The cut of `height` pixels at `up`, by a share that stands for `v`: the integer part of their
product as it is computed. -/
structure SoundCut (s : Share) (height : Int) (v product : ℚ) (up : Int) : Prop where
  value : s.value? = some v
  proper : 0 ≤ v ∧ v ≤ 1
  computed : s.Product (height * v) product
  cut : s.cut height = .ok up
  integerPart : up = ⌊product⌋
  within : 0 ≤ up ∧ up ≤ height
  floor_or_next : up = ⌊height * v⌋ ∨ up = ⌊height * v⌋ + 1
  /-- The pixel after the floor is taken only if the product is rounded up to that integer. -/
  next_iff : up = ⌊height * v⌋ + 1 ↔ product = ⌊height * v⌋ + 1

theorem HasUnits.product {s : Share} {u n : Nat} (h : s.HasUnits u) (hn : n ≤ 2 ^ 53) :
    s.Product ((n : Int) * ((u : ℚ) / unitsPerOne))
      ((unitsAt (nearestRank (n * u) 1) : ℚ) / unitsPerOne) := by
  have exact (hs : s.integer?.isSome) :
      (unitsAt (nearestRank (n * u) 1) : ℚ) / unitsPerOne =
        (n : Int) * ((u : ℚ) / unitsPerOne) := by
    obtain ⟨k, hk, rfl⟩ := h.of_exact hs
    rw [unitsAt_nearestRank_of_exact hn hk, Nat.mul_assoc, Nat.cast_mul, mul_div_assoc,
      Int.cast_natCast]
  cases s with
  | whole k => exact exact rfl
  | flag b => exact exact rfl
  | real x =>
    obtain ⟨r, -, hr⟩ := exists_ofInt hn
    have rank : nearestRank (n * u) 1 ≤ r := by
      apply nearestRank_le Nat.one_pos
      rw [hr, Nat.mul_one]
      exact Nat.mul_le_mul_left n h.le_one
    have limit : nearestRank (n * u) 1 < rankLimit := Nat.lt_of_le_of_lt rank r.isLt
    refine ⟨false, ⟨nearestRank (n * u) 1, limit⟩, ?_, rfl⟩
    have nearest := isNearest_nearestRank (n * u) Nat.one_pos limit
    rwa [Nat.cast_one, one_mul, Nat.cast_mul, mul_div_assoc] at nearest

/-- **The cut of a share given in units is sound.** -/
theorem HasUnits.soundCut {s : Share} {u n : Nat} (h : s.HasUnits u) (hn : n ≤ 2 ^ 53) :
    s.SoundCut n ((u : ℚ) / unitsPerOne) ((unitsAt (nearestRank (n * u) 1) : ℚ) / unitsPerOne)
      (unitsAt (nearestRank (n * u) 1) / unitsPerOne : Nat) := by
  have one := unitsPerOne_pos
  have hone : (0 : ℚ) < unitsPerOne := Nat.cast_pos.mpr one
  have floor : ⌊((n : Int) : ℚ) * ((u : ℚ) / unitsPerOne)⌋ = (n * u / unitsPerOne : Nat) := by
    rw [Int.cast_natCast, ← mul_div_assoc, ← Nat.cast_mul, Rat.floor_natCast_div_natCast,
      Int.natCast_div]
  obtain ⟨low, high⟩ := unitsAt_nearestRank_between hn h.le_one
  have within := cut_units_le hn h.le_one
  have product := h.product hn
  have cut := h.cut n hn
  generalize unitsAt (nearestRank (n * u) 1) = rounded at *
  have atLeast : n * u / unitsPerOne ≤ rounded / unitsPerOne :=
    (Nat.le_div_iff_mul_le one).mpr low
  have atMost : rounded / unitsPerOne ≤ n * u / unitsPerOne + 1 := by
    calc rounded / unitsPerOne ≤ (n * u / unitsPerOne + 1) * unitsPerOne / unitsPerOne :=
          Nat.div_le_div_right high
      _ = n * u / unitsPerOne + 1 := Nat.mul_div_cancel _ one
  have next := div_eq_iff_of_le_mul one high
  refine ⟨h.value, ⟨div_nonneg (Nat.cast_nonneg u) hone.le, ?_⟩, product, cut, ?_,
    ⟨Int.natCast_nonneg _, Int.ofNat_le.mpr within⟩, ?_, ?_⟩
  · rw [div_le_one hone, Nat.cast_le]
    exact h.le_one
  · rw [Rat.floor_natCast_div_natCast, Int.natCast_div]
  · rw [floor]
    omega
  · rw [floor, ← Nat.cast_succ, Int.ofNat_inj, Int.cast_natCast, next, Nat.cast_succ]

/-- A greater share takes no less of a greater height. -/
theorem HasUnits.cut_mono {s t : Share} {u u' n n' : Nat} (h : s.HasUnits u) (h' : t.HasUnits u')
    (hu : u ≤ u') (hn : n ≤ n') (hn' : n' ≤ 2 ^ 53) :
    ∃ up up', s.cut n = .ok up ∧ t.cut n' = .ok up' ∧ up ≤ up' := by
  refine ⟨_, _, h.cut n (Nat.le_trans hn hn'), h'.cut n' hn', ?_⟩
  apply Int.ofNat_le.mpr
  apply Nat.div_le_div_right
  rw [unitsAt_le_iff]
  apply nearestRank_mono Nat.one_pos Nat.one_pos
  rw [Nat.mul_one, Nat.mul_one]
  exact Nat.mul_le_mul hn hu

end Share

/-! ## Trees that a split builds -/

namespace Node

/-- A split takes every proper share, and its second share is what the first one leaves of one. -/
theorem exists_splitBy {s : Share} (proper : s.isProper = true) (first second : Node) :
    ∃ rest, s.complement = .ok rest ∧
      Node.splitBy first s second = .ok (.split first s second rest none) := by
  obtain ⟨t, q, toReal, -⟩ := Share.exists_toReal proper
  have complement : s.complement = .ok (.real (Binary64.one.sub (.finite t q))) := by
    rw [Share.complement, toReal]
    rfl
  refine ⟨_, complement, ?_⟩
  rw [Node.splitBy, if_pos proper, complement]
  rfl

theorem splitBy_eq_ok {first second n : Node} {s : Share}
    (accepted : Node.splitBy first s second = .ok n) :
    s.isProper = true ∧ ∃ rest, s.complement = .ok rest ∧ n = .split first s second rest none := by
  have proper : s.isProper = true := by
    by_contra improper
    rw [Node.splitBy, if_neg improper] at accepted
    cases accepted
  obtain ⟨rest, complement, built⟩ := exists_splitBy proper first second
  rw [built] at accepted
  cases accepted
  exact ⟨proper, rest, complement, rfl⟩

/-- A pass over a split is a pass over each half in its part of the area. -/
theorem resolve_split {s : Share} {d : Rect} {up : Int} (hcut : s.cut d.height = .ok up)
    (first second : Node) (rest : Share) (p : Profile) :
    (Node.split first s second rest none).resolve d p = do
      let a ← first.resolve ⟨d.x, d.y, d.width, up⟩ p
      let b ← second.resolve ⟨d.x, d.y + up, d.width, d.height - up⟩ p
      return .split a s b rest none := by
  have parts := Pass.toExcept_place_split (p := p) hcut first.clear second.clear rest none
  rwa [Pass.upperPart, Pass.lowerPart, Pass.upper, hcut] at parts

end Node

/-- Two rectangles one above the other that cover the rectangle `r` and nothing else. -/
structure Rect.CutInto (r upper lower : Rect) : Prop where
  nonneg : 0 ≤ upper.height ∧ 0 ≤ lower.height
  height : upper.height + lower.height = r.height
  covers : ∀ px py, r.Covers px py ↔ upper.Covers px py ∨ lower.Covers px py
  apart : upper.Apart lower

theorem Rect.cutInto {r : Rect} {up : Int} (within : 0 ≤ up ∧ up ≤ r.height) :
    r.CutInto ⟨r.x, r.y, r.width, up⟩ ⟨r.x, r.y + up, r.width, r.height - up⟩ := by
  constructor
  · dsimp only
    omega
  · dsimp only
    omega
  · intro px py
    simp only [Rect.Covers, Rect.right, Rect.bottom]
    omega
  · exact .inr (.inr (.inl (Int.le_refl _)))

/-- **A split cuts soundly**: an accepted share cuts every height of up to `2 ^ 53` pixels inside, at
the integer part of the product, which is the floor of the exact product or the pixel after it; a
pass lays the halves out in two areas that cover the split's area and nothing else; and with a
greater share or a greater height the first half gets no less. -/
theorem Node.soundCut_of_splitBy {first second n : Node} {s : Share}
    (accepted : Node.splitBy first s second = .ok n) {d : Rect} (nonneg : 0 ≤ d.height)
    (exact : d.height ≤ 2 ^ 53) :
    ∃ v product up, s.SoundCut d.height v product up ∧
      d.CutInto ⟨d.x, d.y, d.width, up⟩ ⟨d.x, d.y + up, d.width, d.height - up⟩ ∧
      (∃ rest, s.complement = .ok rest ∧ ∀ p, n.resolve d p = do
        let a ← first.resolve ⟨d.x, d.y, d.width, up⟩ p
        let b ← second.resolve ⟨d.x, d.y + up, d.width, d.height - up⟩ p
        return .split a s b rest none) ∧
      ∀ t w, t.value? = some w → v ≤ w → w ≤ 1 →
        (∃ m, Node.splitBy first t second = .ok m) ∧
          ∀ height, d.height ≤ height → height ≤ 2 ^ 53 →
            ∃ up', t.cut height = .ok up' ∧ up ≤ up' := by
  obtain ⟨proper, rest, complement, rfl⟩ := Node.splitBy_eq_ok accepted
  obtain ⟨u, units⟩ := Share.exists_hasUnits proper
  obtain ⟨h, hh⟩ := Int.eq_ofNat_of_zero_le nonneg
  have inside : h ≤ 2 ^ 53 := by omega
  have sound := units.soundCut inside
  rw [← hh] at sound
  refine ⟨_, _, _, sound, Rect.cutInto sound.within,
    ⟨rest, complement, Node.resolve_split sound.cut first second rest⟩, ?_⟩
  intro t w value greater atMost
  have proper' : t.isProper = true :=
    Share.isProper_iff.mpr ⟨w, value, sound.proper.1.trans greater, atMost⟩
  obtain ⟨_, -, built⟩ := Node.exists_splitBy proper' first second
  refine ⟨⟨_, built⟩, ?_⟩
  intro height higher within
  obtain ⟨u', units'⟩ := Share.exists_hasUnits proper'
  obtain ⟨h', rfl⟩ := Int.eq_ofNat_of_zero_le (nonneg.trans higher)
  have more : u ≤ u' := by
    obtain rfl : (u' : ℚ) / unitsPerOne = w := Option.some.inj (units'.value.symm.trans value)
    rwa [div_le_div_iff_of_pos_right (Nat.cast_pos.mpr unitsPerOne_pos), Nat.cast_le] at greater
  have heights : h ≤ h' := by omega
  obtain ⟨up, up', hup, hup', hle⟩ := units.cut_mono units' more heights (by omega)
  rw [← hh, sound.cut] at hup
  cases hup
  exact ⟨up', hup', hle⟩

/-- The double nearest to seven tenths, which is a little less. -/
def sevenTenths : Share := .real (.finite false ⟨0x3FE6666666666666, by decide⟩)

/-- Seven tenths of ten pixels are less than seven pixels, but the product is rounded up to seven. -/
theorem Node.soundCut_of_splitBy_sevenTenths :
    ∃ n v, Node.splitBy (.label "Up") sevenTenths (.label "Down") = .ok n ∧
      sevenTenths.SoundCut 10 v 7 7 ∧ ⌊((10 : Int) : ℚ) * v⌋ = 6 ∧
      ∃ rest, ∀ p, n.resolve ⟨0, 0, 20, 10⟩ p = do
        let a ← (Node.label "Up").resolve ⟨0, 0, 20, 7⟩ p
        let b ← (Node.label "Down").resolve ⟨0, 7, 20, 3⟩ p
        return .split a sevenTenths b rest none := by
  obtain ⟨_, -, built⟩ := Node.exists_splitBy (s := sevenTenths) (by decide +kernel)
    (.label "Up") (.label "Down")
  obtain ⟨v, product, up, sound, -, ⟨rest, -, parts⟩, -⟩ :=
    Node.soundCut_of_splitBy built (d := ⟨0, 0, 20, 10⟩) (by decide) (by decide)
  have seven : sevenTenths.cut 10 = .ok 7 := by decide +kernel
  obtain rfl : 7 = up := Except.ok.inj (seven.symm.trans sound.cut)
  have floor : ⌊((10 : Int) : ℚ) * v⌋ = 6 := by
    obtain rfl : value false _ = v := Option.some.inj sound.value
    have units : 10 * unitsAt 0x3FE6666666666666 / unitsPerOne = 6 := by decide +kernel
    rw [Binary64.value, signedUnits, if_neg Bool.false_ne_true, ← mul_div_assoc, ← Int.cast_mul,
      Rat.floor_intCast_div_natCast]
    exact_mod_cast units
  obtain rfl : product = 7 := by
    have next := sound.next_iff
    rw [floor] at next
    exact_mod_cast next.mp rfl
  exact ⟨_, v, built, sound, floor, rest, parts⟩

/-- Beyond `2 ^ 53` pixels the height is rounded too, and one half may get more than there is. -/
example : Share.cut (2 ^ 53 + 3) (.real .one) = .ok (2 ^ 53 + 4) := by decide +kernel

end PixelLayout
