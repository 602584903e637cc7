import Mathlib.Algebra.Order.Field.Basic
import Mathlib.Data.Rat.Cast.Order
import Mathlib.Tactic.FieldSimp
import PixelLayout.Proofs.Rounding

/-!
# Rounding goes to the nearest double

`nearestRank` is arithmetic on units: it picks a step, divides, and rounds a half to the even
quotient. Here is what it is for, said of rational numbers and without units: of all finite doubles,
the negative ones included, none is nearer to the quotient, and where another one is as near, the
rank is even (`IsNearest`, `isNearest_nearestRank`). An octave has an even number of ranks, so a
double of even rank is one of even significand.

A quotient lies between two neighbouring doubles, and the choice between the two is the rounding of
the integer division by their step (`exists_neighbours`). Every other double is beyond one of them.
-/

namespace PixelLayout.Binary64

/-! ## The two doubles around a quotient -/

/-- **A quotient of units lies between the doubles of two ranks that follow each other, and the
nearer one is taken; at the same distance, the one of even rank.** -/
theorem exists_neighbours (num : Nat) {den : Nat} (hden : 0 < den) :
    ∃ r step rest, num = unitsAt r * den + rest ∧ rest < step ∧
      unitsAt (r + 1) * den = unitsAt r * den + step ∧
      (nearestRank num den = r ∧ 2 * rest ≤ step ∧ (2 * rest = step → r % 2 = 0) ∨
        nearestRank num den = r + 1 ∧ step ≤ 2 * rest ∧ (2 * rest = step → (r + 1) % 2 = 0)) := by
  obtain ⟨e, he⟩ : ∃ e, e = spare (num / den) := ⟨_, rfl⟩
  obtain ⟨step, hstep⟩ : ∃ step, step = den * 2 ^ e := ⟨_, rfl⟩
  have positive : 0 < step := by
    rw [hstep]
    exact Nat.mul_pos hden (Nat.two_pow_pos e)
  obtain ⟨q, hq⟩ : ∃ q, q = num / step := ⟨_, rfl⟩
  have parts : num / den / 2 ^ e = q := by rw [hq, hstep, Nat.div_div_eq_div_mul]
  have high : q + 1 ≤ 2 * octave := by
    rw [← parts, Nat.succ_le_iff, Nat.div_lt_iff_lt_mul (Nat.two_pow_pos e), he]
    exact lt_of_spare _
  have low : octave ≤ q ∨ e = 0 := by
    rcases Nat.eq_zero_or_pos e with none | some
    · exact .inr none
    · rw [← parts, Nat.le_div_iff_mul_le (Nat.two_pow_pos e), he]
      exact .inl (le_of_spare_pos (he ▸ some))
  have below : unitsAt (e * octave + q) * den = q * step := by
    rw [unitsAt_of_steps (Nat.le_of_lt high) low, hstep, Nat.mul_assoc, Nat.mul_comm (2 ^ e)]
  have above : unitsAt (e * octave + q + 1) * den = q * step + step := by
    rw [Nat.add_assoc, unitsAt_of_steps high (low.imp_left Nat.le_succ_of_le), hstep,
      Nat.mul_assoc, Nat.mul_comm (2 ^ e), Nat.succ_mul]
  have rank : nearestRank num den = e * octave + roundDiv num step := by
    rw [nearestRank_eq, ← he, ← hstep]
  refine ⟨e * octave + q, step, num % step, ?_, Nat.mod_lt _ positive, by rw [below, above], ?_⟩
  · rw [below, hq, Nat.div_add_mod']
  · -- an octave has an even number of ranks, so the rank is even where the quotient is
    have even : octave % 2 = 0 := rfl
    have parity : (e * octave + q) % 2 = q % 2 := by
      rw [Nat.add_mod, Nat.mul_mod, even, Nat.mul_zero, Nat.zero_mod, Nat.zero_add, Nat.mod_mod]
    rw [rank, roundDiv_eq, ← hq]
    generalize e * octave = start at parity ⊢
    split
    · exact .inl ⟨rfl, by omega, by omega⟩
    · split
      · exact .inr ⟨rfl, by omega, by omega⟩
      · rcases Nat.mod_two_eq_zero_or_one q with even | odd
        · exact .inl ⟨by omega, by omega, by omega⟩
        · exact .inr ⟨by omega, by omega, by omega⟩

/-! ## Nearest in units -/

/-- How far the quotient `num / den` lies from some units, in parts of `den` to the unit. -/
def distance (num den : Nat) (units : Int) : Nat := ((num : Int) - units * den).natAbs

/-- No rank has a double nearer to a quotient than the one that the quotient is rounded to. -/
theorem distance_nearestRank_le (num : Nat) {den : Nat} (hden : 0 < den) (m : Nat) :
    distance num den (unitsAt (nearestRank num den)) ≤ distance num den (unitsAt m) := by
  obtain ⟨r, step, rest, hnum, hrest, habove, chosen⟩ := exists_neighbours num hden
  have beyond : unitsAt m * den ≤ unitsAt r * den ∨ unitsAt (r + 1) * den ≤ unitsAt m * den := by
    rcases Nat.lt_or_ge r m with later | earlier
    · exact .inr (Nat.mul_le_mul_right den (unitsAt_le_iff.mpr later))
    · exact .inl (Nat.mul_le_mul_right den (unitsAt_le_iff.mpr earlier))
  unfold distance
  rw [← Int.natCast_mul, ← Int.natCast_mul]
  rcases chosen with ⟨same, half, _⟩ | ⟨same, half, _⟩ <;> rw [same] <;> omega

/-- Where another double is as near as the one that was chosen, the rank that was chosen is even. -/
theorem even_nearestRank (num : Nat) {den : Nat} (hden : 0 < den) {m : Nat}
    (other : m ≠ nearestRank num den)
    (tie : distance num den (unitsAt m) = distance num den (unitsAt (nearestRank num den))) :
    nearestRank num den % 2 = 0 := by
  obtain ⟨r, step, rest, hnum, hrest, habove, chosen⟩ := exists_neighbours num hden
  have scaled {a b : Nat} (h : a < b) : unitsAt a * den < unitsAt b * den := by
    apply Nat.mul_lt_mul_of_pos_right _ hden
    rw [← Nat.not_le, unitsAt_le_iff]
    exact Nat.not_le.mpr h
  have beyond : m = r ∨ m = r + 1 ∨ unitsAt m * den < unitsAt r * den ∨
      unitsAt (r + 1) * den < unitsAt m * den := by
    rcases Nat.lt_trichotomy m r with earlier | same | later
    · exact .inr (.inr (.inl (scaled earlier)))
    · exact .inl same
    · rcases Nat.lt_or_eq_of_le (Nat.succ_le_of_lt later) with beyond | next
      · exact .inr (.inr (.inr (scaled beyond)))
      · exact .inr (.inl next.symm)
  unfold distance at tie
  rw [← Int.natCast_mul, ← Int.natCast_mul] at tie
  rcases chosen with ⟨same, half, parity⟩ | ⟨same, half, parity⟩
  · rw [same] at other tie ⊢
    rcases beyond with rfl | rfl | before | behind <;> omega
  · rw [same] at other tie ⊢
    rcases beyond with rfl | rfl | before | behind <;> omega

/-! ## Nearest among the rational numbers -/

/-- The number that a finite double stands for. -/
def value (negative : Bool) (rank : Fin rankLimit) : ℚ := signedUnits negative rank / unitsPerOne

/-- The finite double of a sign and a rank is nearest to `q`: none is nearer, and if another number
is as near, the rank is even. -/
structure IsNearest (q : ℚ) (s : Bool) (r : Fin rankLimit) : Prop where
  le_of_finite : ∀ t m, |q - value s r| ≤ |q - value t m|
  even_of_tie : ∀ t m, value t m ≠ value s r → |q - value t m| = |q - value s r| → r.val % 2 = 0

/-- Distances between rational numbers are distances in units. -/
theorem abs_sub_value {num den : Nat} (hden : 0 < den) (t : Bool) (m : Fin rankLimit) :
    |(num : ℚ) / (den * unitsPerOne) - value t m| =
      distance num den (signedUnits t m) / (den * unitsPerOne) := by
  have hden' : (0 : ℚ) < den := Nat.cast_pos.mpr hden
  have hone : (0 : ℚ) < unitsPerOne := Nat.cast_pos.mpr unitsPerOne_pos
  unfold value distance
  generalize (unitsPerOne : ℚ) = one at hone ⊢
  have common : (num : ℚ) / (den * one) - signedUnits t m / one =
      ((num - signedUnits t m * den : Int) : ℚ) / (den * one) := by
    push_cast
    field_simp
  rw [common, abs_div, abs_of_pos (mul_pos hden' hone), Nat.cast_natAbs, Int.cast_abs]

/-- A double with a sign is no nearer to a quotient than zero is, and as near only if it is a zero
itself. -/
theorem exists_unsigned (num : Nat) {den : Nat} (hden : 0 < den) (t : Bool) (m : Fin rankLimit) :
    ∃ k, distance num den (unitsAt k) ≤ distance num den (signedUnits t m) ∧
      (distance num den (unitsAt k) = distance num den (signedUnits t m) →
        signedUnits t m = unitsAt k) := by
  cases t with
  | false => exact ⟨m, Nat.le_refl _, fun _ => rfl⟩
  | true =>
    refine ⟨0, ?_⟩
    have zero : unitsAt 0 = 0 := rfl
    have signed : signedUnits true m = -(unitsAt m : Int) := rfl
    have less : unitsAt m ≤ unitsAt m * den := Nat.le_mul_of_pos_right _ hden
    rw [zero, signed]
    unfold distance
    rw [Int.neg_mul, ← Int.natCast_mul]
    constructor
    · omega
    · intro same
      omega

/-- **Rounding goes to the nearest of all finite doubles, and on a tie to the even rank.** -/
theorem isNearest_nearestRank (num : Nat) {den : Nat} (hden : 0 < den)
    (limit : nearestRank num den < rankLimit) :
    IsNearest (num / (den * unitsPerOne)) false ⟨nearestRank num den, limit⟩ := by
  have scale : (0 : ℚ) < den * unitsPerOne :=
    mul_pos (Nat.cast_pos.mpr hden) (Nat.cast_pos.mpr unitsPerOne_pos)
  have own : signedUnits false ⟨nearestRank num den, limit⟩ = unitsAt (nearestRank num den) := rfl
  constructor
  · intro t m
    obtain ⟨k, nearer, _⟩ := exists_unsigned num hden t m
    rw [abs_sub_value hden, abs_sub_value hden, div_le_div_iff_of_pos_right scale, Nat.cast_le, own]
    exact Nat.le_trans (distance_nearestRank_le num hden k) nearer
  · intro t m other tie
    obtain ⟨k, nearer, exact⟩ := exists_unsigned num hden t m
    rw [abs_sub_value hden, abs_sub_value hden, div_left_inj' (ne_of_gt scale), Nat.cast_inj, own]
      at tie
    have least := distance_nearestRank_le num hden k
    have units := exact (by omega)
    apply even_nearestRank num hden (m := k) ?_ (by rw [← units, tie])
    rintro rfl
    exact other (by rw [value, value, own, units])

end PixelLayout.Binary64
