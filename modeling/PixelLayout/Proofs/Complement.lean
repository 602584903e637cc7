import PixelLayout.Proofs.SplitCut

/-!
# A share and what it leaves of one

A split stores two shares: the one that its author gave, and what that one leaves of one, as a
double. Both the difference and the sum of the two are rounded, and a check asks whether that sum is
one, up to a tolerance. **It is one exactly** (`Share.exists_complement`), whatever the share.

The reason is how the doubles lie around one. Up to one, a double is off by at most half the step
below one (`near_nearestRank`), so the sum before its rounding lies no farther from one. Above one
the next double is two such steps away; below, it is one step away, so that only a sum half a step
below one could be taken to it. But such a tie goes to the even rank, and that is the rank of one
(`nearestRank_eq_one`).
-/

namespace PixelLayout

namespace Binary64

/-- Half the step between one and the double before it, in units. -/
def halfStep : Nat := 1 <<< 1020

/-- The rank of the number one. -/
def rankOfOne : Nat := 0x3FF0000000000000

theorem halfStep_pos : 0 < halfStep := by
  rw [halfStep, Nat.one_shiftLeft]
  exact Nat.two_pow_pos 1020

theorem unitsPerOne_eq_halfSteps : unitsPerOne = 2 ^ 54 * halfStep := by decide +kernel

theorem unitsAt_rankOfOne : unitsAt rankOfOne = unitsPerOne := unitsAt_one

/-- The double before one. -/
theorem unitsAt_before_one : unitsAt (rankOfOne - 1) + 2 * halfStep = unitsPerOne := by
  decide +kernel

/-- The double after one. -/
theorem unitsAt_after_one : unitsAt (rankOfOne + 1) = unitsPerOne + 4 * halfStep := by
  decide +kernel

/-- Up to one, rounding is off by at most half the step below one. -/
theorem near_nearestRank {x : Nat} (h : x ≤ unitsPerOne) :
    x ≤ unitsAt (nearestRank x 1) + halfStep ∧ unitsAt (nearestRank x 1) ≤ x + halfStep := by
  have positive := halfStep_pos
  have step : 1 <<< 1021 = 2 * halfStep := by decide +kernel
  -- the multiple of the step that is nearest to `x`
  obtain ⟨k, hk⟩ : ∃ k, k = (x + halfStep) / (2 * halfStep) := ⟨_, rfl⟩
  have low : k * (2 * halfStep) ≤ x + halfStep := hk ▸ Nat.div_mul_le_self _ _
  have high : x + halfStep < (k + 1) * (2 * halfStep) := by
    rw [hk, Nat.succ_mul]
    exact Nat.lt_div_mul_add (by omega)
  have most : k ≤ 2 ^ 53 := by
    rw [hk]
    apply Nat.le_of_lt_succ
    rw [Nat.div_lt_iff_lt_mul (by omega)]
    rw [unitsPerOne_eq_halfSteps] at h
    omega
  obtain ⟨r, -, hr⟩ := exists_unitsAt_of_le (s := 1021) most (by decide)
  have nearest := distance_nearestRank_le x Nat.one_pos r
  rw [hr, step] at nearest
  unfold distance at nearest
  rw [Nat.succ_mul] at high
  generalize k * (2 * halfStep) = multiple at low high nearest
  omega

/-- **What is at most half a step off one is rounded to one.** -/
theorem nearestRank_eq_one {x : Nat} (low : unitsPerOne ≤ x + halfStep)
    (high : x ≤ unitsPerOne + halfStep) : nearestRank x 1 = rankOfOne := by
  have positive := halfStep_pos
  have nearest := distance_nearestRank_le x Nat.one_pos rankOfOne
  have tie := even_nearestRank x Nat.one_pos (m := rankOfOne)
  have before := unitsAt_before_one
  have after := unitsAt_after_one
  rw [unitsAt_rankOfOne] at nearest tie
  rcases Nat.lt_trichotomy (nearestRank x 1) rankOfOne with less | same | more
  · -- only the double before one is as near as one is, and its rank is odd
    have most : unitsAt (nearestRank x 1) ≤ unitsAt (rankOfOne - 1) :=
      unitsAt_le_iff.mpr (Nat.le_sub_one_of_lt less)
    have even := tie (Nat.ne_of_gt less) (by
      unfold distance at nearest ⊢
      omega)
    have least : unitsAt (rankOfOne - 1) ≤ unitsAt (nearestRank x 1) := by
      unfold distance at nearest
      omega
    have rank : nearestRank x 1 = rankOfOne - 1 :=
      Nat.le_antisymm (unitsAt_le_iff.mp most) (unitsAt_le_iff.mp least)
    rw [rank] at even
    exact absurd even (by decide)
  · exact same
  · have least : unitsAt (rankOfOne + 1) ≤ unitsAt (nearestRank x 1) := unitsAt_le_iff.mpr more
    unfold distance at nearest
    omega

/-! ## Sums without a sign -/

theorem signedUnits_not (s : Bool) (r : Fin rankLimit) :
    signedUnits (!s) r = -signedUnits s r := by
  cases s <;> simp [signedUnits]

/-- What is at most one is rounded to at most one. -/
theorem nearestRank_le_rankOfOne {x : Nat} (h : x ≤ unitsPerOne) : nearestRank x 1 ≤ rankOfOne := by
  apply nearestRank_le Nat.one_pos
  rwa [unitsAt_rankOfOne, Nat.mul_one]

/-- A sum of `n` units is rounded, and has no sign unless both summands have one. -/
theorem add_finite {s t : Bool} {r q : Fin rankLimit} {n : Nat} (unsigned : (s && t) = false)
    (sum : signedUnits s r + signedUnits t q = n) (limit : nearestRank n 1 < rankLimit) :
    add (.finite s r) (.finite t q) = .finite false ⟨nearestRank n 1, limit⟩ := by
  have body : add (.finite s r) (.finite t q) =
      if (n : Int) = 0 then finite (s && t) ⟨0, rankLimit_pos⟩
      else ofUnits (decide ((n : Int) < 0)) n 1 := by
    rw [add, sum]
    rfl
  rw [body, unsigned]
  split
  · next nothing =>
    obtain rfl : n = 0 := Int.ofNat_eq_zero.mp nothing
    rfl
  · rw [decide_eq_false (by omega), ofUnits, dif_pos limit]

end Binary64

open Binary64

namespace Share

theorem add_real {s : Share} {x : Binary64} (h : s.toReal = .ok x) (y : Binary64) :
    s.add (.real y) = .ok (.real (x.add y)) := by
  have body : s.add (.real y) = do
      let x ← s.toReal
      return .real (x.add y) := by
    cases s <;> rfl
  rw [body, h]
  rfl

/-- The shares stand for numbers between zero and one, and their sum is one, as it is and up to the
tolerance of a check. -/
structure MakeOne (s t : Share) : Prop where
  first : ∃ v, s.value? = some v ∧ 0 ≤ v ∧ v ≤ 1
  second : ∃ v, t.value? = some v ∧ 0 ≤ v ∧ v ≤ 1
  sum : s.add t = .ok (.real .one)
  close : ∀ sum, s.add t = .ok sum → sum.isCloseToOne = .ok true

theorem isProper_finite {r : Fin rankLimit} (h : unitsAt r ≤ unitsPerOne) :
    (Share.real (.finite false r)).isProper = true := by
  have low : (0 : Int) ≤ unitsAt r := Int.natCast_nonneg _
  have high : (unitsAt r : Int) ≤ unitsAt rankOfOne := by
    rw [unitsAt_rankOfOne]
    exact Int.ofNat_le.mpr h
  exact (Bool.and_eq_true _ _).mpr ⟨decide_eq_true low, decide_eq_true high⟩

theorem isCloseToOne_one : (Share.real .one).isCloseToOne = .ok true := by
  have close : Binary64.one.isClose .one = true := by decide +kernel
  rw [isCloseToOne, ← close]
  rfl

/-- **What a share leaves of one makes one with it**, exactly. -/
theorem exists_complement {s : Share} (proper : s.isProper = true) :
    ∃ c, s.complement = .ok (.real c) ∧ s.MakeOne (.real c) := by
  obtain ⟨t, q, toReal, unsigned, most⟩ := exists_toReal proper
  obtain ⟨c, hc⟩ : ∃ c, c = nearestRank (unitsPerOne - unitsAt q) 1 := ⟨_, rfl⟩
  have rest : unitsPerOne - unitsAt q ≤ unitsPerOne := Nat.sub_le _ _
  have rank : c ≤ rankOfOne := hc ▸ nearestRank_le_rankOfOne rest
  have limit : c < rankLimit := Nat.lt_of_le_of_lt rank (by decide)
  have inside : unitsAt c ≤ unitsPerOne := unitsAt_rankOfOne ▸ unitsAt_le_iff.mpr rank
  obtain ⟨low, high⟩ := near_nearestRank rest
  rw [← hc] at low high
  have difference : Binary64.one.sub (.finite t q) = .finite false ⟨c, limit⟩ := by
    subst hc
    apply add_finite (Bool.false_and _)
    rw [signedUnits_not, unsigned]
    have one : signedUnits false ⟨0x3FF0000000000000, by decide⟩ = unitsPerOne :=
      congrArg Int.ofNat unitsAt_one
    rw [one]
    omega
  have total : nearestRank (unitsAt q + unitsAt c) 1 = rankOfOne :=
    nearestRank_eq_one (by omega) (by omega)
  have one : (Binary64.finite t q).add (.finite false ⟨c, limit⟩) = .one := by
    rw [add_finite (n := unitsAt q + unitsAt c) (Bool.and_false t)]
    · simp only [total]
      rfl
    · rw [unsigned]
      rfl
    · rw [total]
      decide
  have sum : s.add (.real (.finite false ⟨c, limit⟩)) = .ok (.real .one) := by
    rw [add_real toReal, one]
  refine ⟨.finite false ⟨c, limit⟩, ?_, isProper_iff.mp proper,
    isProper_iff.mp (isProper_finite inside), sum, ?_⟩
  · rw [complement, toReal, ← difference]
    rfl
  · intro sum' hsum'
    obtain rfl : .real .one = sum' := Except.ok.inj (sum.symm.trans hsum')
    exact isCloseToOne_one

end Share

end PixelLayout
