import Mathlib.Algebra.Order.Ring.Nat
import PixelLayout.Number.Binary64

/-!
# Rounding to a double

`nearestRank` takes a quotient of units to the rank of a double. Two facts about it carry all that
the layout needs of doubles: rounding is monotone (`nearestRank_mono`), and it leaves the units of a
double as they are (`nearestRank_unitsAt`). So a quotient that is at most a double rounds to at most
that double, and the doubles are in the order of their ranks (`unitsAt_le_iff`).

Every integer up to `2 ^ 53` is a double (`exists_ofInt`), so nothing is rounded across one
(`le_unitsAt_nearestRank`, `unitsAt_nearestRank_le`).
-/

namespace PixelLayout.Binary64

/-! ## Rounding a quotient to an integer -/

theorem roundDiv_eq (n d : Nat) :
    roundDiv n d =
      if 2 * (n % d) < d then n / d
      else if d < 2 * (n % d) then n / d + 1
      else n / d + n / d % 2 := rfl

theorem div_le_roundDiv (n d : Nat) : n / d ≤ roundDiv n d := by
  rw [roundDiv_eq]
  split
  · exact Nat.le_refl _
  · split
    · exact Nat.le_succ _
    · exact Nat.le_add_right _ _

theorem roundDiv_le (n d : Nat) : roundDiv n d ≤ n / d + 1 := by
  rw [roundDiv_eq]
  split
  · exact Nat.le_succ _
  · split
    · exact Nat.le_refl _
    · have := Nat.mod_lt (n / d) Nat.two_pos
      omega

theorem roundDiv_mul {d : Nat} (hd : 0 < d) (m : Nat) : roundDiv (m * d) d = m := by
  rw [roundDiv_eq, Nat.mul_div_cancel m hd, Nat.mul_mod_left]
  exact if_pos hd

/-- A smaller quotient has no larger integer part. -/
theorem div_mono {n d n' d' : Nat} (hd : 0 < d) (hd' : 0 < d') (h : n * d' ≤ n' * d) :
    n / d ≤ n' / d' := by
  rw [Nat.le_div_iff_mul_le hd']
  apply Nat.le_of_mul_le_mul_right _ hd
  calc n / d * d' * d = n / d * d * d' := Nat.mul_right_comm ..
    _ ≤ n * d' := Nat.mul_le_mul_right d' (Nat.div_mul_le_self n d)
    _ ≤ n' * d := h

/-- A smaller quotient does not round to a larger integer. -/
theorem roundDiv_mono {n d n' d' : Nat} (hd : 0 < d) (hd' : 0 < d') (h : n * d' ≤ n' * d) :
    roundDiv n d ≤ roundDiv n' d' := by
  rcases Nat.lt_or_eq_of_le (div_mono hd hd' h) with less | same
  · calc roundDiv n d ≤ n / d + 1 := roundDiv_le n d
      _ ≤ n' / d' := less
      _ ≤ roundDiv n' d' := div_le_roundDiv n' d'
  · -- the integer parts are the same, so the rests decide
    have rests : n % d * d' ≤ n' % d' * d := by
      have whole : n' / d' * d' * d = n / d * d * d' := by rw [same, Nat.mul_right_comm]
      have parts := h
      rw [← Nat.div_add_mod' n d, ← Nat.div_add_mod' n' d', Nat.add_mul, Nat.add_mul, whole]
        at parts
      exact Nat.le_of_add_le_add_left parts
    have doubled : 2 * (n % d) * d' ≤ 2 * (n' % d') * d := by
      rw [Nat.mul_assoc, Nat.mul_assoc]
      exact Nat.mul_le_mul_left 2 rests
    have half : d ≤ 2 * (n % d) → d' ≤ 2 * (n' % d') := by
      intro hrest
      apply Nat.le_of_mul_le_mul_right _ hd
      calc d' * d = d * d' := Nat.mul_comm ..
        _ ≤ 2 * (n % d) * d' := Nat.mul_le_mul_right d' hrest
        _ ≤ 2 * (n' % d') * d := doubled
    have more : d < 2 * (n % d) → d' < 2 * (n' % d') := by
      intro hrest
      apply Nat.lt_of_mul_lt_mul_right (a := d)
      calc d' * d = d * d' := Nat.mul_comm ..
        _ < 2 * (n % d) * d' := Nat.mul_lt_mul_of_pos_right hrest hd'
        _ ≤ 2 * (n' % d') * d := doubled
    rw [roundDiv_eq n d]
    split
    · rw [same]
      exact div_le_roundDiv n' d'
    · next notBelow =>
      have notBelow' := half (Nat.not_lt.mp notBelow)
      rw [roundDiv_eq n' d', same]
      split
      · next above => rw [if_neg (Nat.not_lt.mpr notBelow'), if_pos (more above)]
      · rw [if_neg (Nat.not_lt.mpr notBelow')]
        split <;> omega

/-! ## The step of the doubles around a quotient -/

theorem octave_eq : octave = 2 ^ 52 := rfl

/-- How many octaves the step of the doubles around `q` units has doubled. -/
def spare (q : Nat) : Nat := q.log2 - 52

theorem nearestRank_eq (num den : Nat) :
    nearestRank num den =
      spare (num / den) * octave + roundDiv num (den * 2 ^ spare (num / den)) := by
  rw [nearestRank, Nat.shiftLeft_eq, spare]

theorem lt_of_spare (q : Nat) : q < 2 ^ 53 * 2 ^ spare q := by
  rw [← Nat.pow_add]
  refine Nat.lt_of_lt_of_le Nat.lt_log2_self (Nat.pow_le_pow_right Nat.two_pos ?_)
  unfold spare
  omega

theorem le_of_spare_pos {q : Nat} (h : 0 < spare q) : 2 ^ 52 * 2 ^ spare q ≤ q := by
  have hlog : q.log2 = 52 + spare q := by
    unfold spare at h ⊢
    omega
  have hq : q ≠ 0 := by
    rintro rfl
    exact absurd h (by decide)
  rw [← Nat.pow_add, ← hlog]
  exact Nat.log2_self_le hq

theorem spare_mono {q q' : Nat} (h : q ≤ q') : spare q ≤ spare q' := by
  by_contra less
  have positive : 0 < spare q := by omega
  have steps : 2 * 2 ^ spare q' ≤ 2 ^ spare q := by
    rw [← Nat.pow_succ']
    exact Nat.pow_le_pow_right Nat.two_pos (by omega)
  have low := le_of_spare_pos positive
  have high := lt_of_spare q'
  omega

/-- The significand of a rounded quotient is at most two octaves. -/
theorem significand_le (num den : Nat) :
    roundDiv num (den * 2 ^ spare (num / den)) ≤ 2 * octave := by
  refine Nat.le_trans (roundDiv_le _ _) ?_
  rw [← Nat.div_div_eq_div_mul]
  exact (Nat.div_lt_iff_lt_mul (Nat.two_pow_pos _)).mpr (lt_of_spare _)

/-- It is at least one octave, unless the step is one unit. -/
theorem le_significand {num den : Nat} (h : 0 < spare (num / den)) :
    octave ≤ roundDiv num (den * 2 ^ spare (num / den)) := by
  refine Nat.le_trans ?_ (div_le_roundDiv _ _)
  rw [← Nat.div_div_eq_div_mul]
  exact (Nat.le_div_iff_mul_le (Nat.two_pow_pos _)).mpr (le_of_spare_pos h)

/-- **Rounding is monotone**: a smaller quotient has no larger double. -/
theorem nearestRank_mono {num den num' den' : Nat} (hden : 0 < den) (hden' : 0 < den')
    (h : num * den' ≤ num' * den) : nearestRank num den ≤ nearestRank num' den' := by
  rw [nearestRank_eq, nearestRank_eq]
  rcases Nat.lt_or_eq_of_le (spare_mono (div_mono hden hden' h)) with less | same
  · -- what the significand may lose, the octaves between the two make up for
    have low := significand_le num den
    have high : octave ≤ roundDiv num' (den' * 2 ^ spare (num' / den')) :=
      le_significand (by omega)
    have octaves : (spare (num / den) + 1) * octave ≤ spare (num' / den') * octave :=
      Nat.mul_le_mul_right octave less
    rw [Nat.add_mul, Nat.one_mul] at octaves
    omega
  · rw [← same]
    apply Nat.add_le_add_left
    apply roundDiv_mono (Nat.mul_pos hden (Nat.two_pow_pos _))
      (Nat.mul_pos hden' (Nat.two_pow_pos _))
    rw [← Nat.mul_assoc, ← Nat.mul_assoc]
    exact Nat.mul_le_mul_right _ h

/-- A quotient in other terms rounds to the same double. -/
theorem nearestRank_scale (num : Nat) {den c : Nat} (hden : 0 < den) (hc : 0 < c) :
    nearestRank (num * c) (den * c) = nearestRank num den := by
  have scaled : 0 < den * c := Nat.mul_pos hden hc
  have same : num * c * den = num * (den * c) := by
    rw [Nat.mul_assoc, Nat.mul_comm c]
  exact Nat.le_antisymm (nearestRank_mono scaled hden (Nat.le_of_eq same))
    (nearestRank_mono hden scaled (Nat.le_of_eq same.symm))

/-! ## Doubles are exact -/

/-- A whole number of steps of its octave is the magnitude of a double. -/
theorem unitsAt_of_steps {m e : Nat} (hm : m ≤ 2 * octave) (h : octave ≤ m ∨ e = 0) :
    unitsAt (e * octave + m) = m * 2 ^ e := by
  have hoctave : 0 < octave := by decide
  rcases Nat.lt_or_ge m octave with first | later
  · obtain rfl : e = 0 := h.resolve_left (by omega)
    rw [unitsAt, Nat.zero_mul, Nat.zero_add, if_pos first, Nat.pow_zero, Nat.mul_one]
  · have rank : ¬ e * octave + m < octave := by omega
    have quotient : (e * octave + m) / octave = e + m / octave := by
      rw [Nat.add_comm, Nat.add_mul_div_right _ _ hoctave, Nat.add_comm]
    have rest : (e * octave + m) % octave = m % octave := by
      rw [Nat.add_comm, Nat.add_mul_mod_self_right]
    rw [unitsAt, if_neg rank, quotient, rest, Nat.shiftLeft_eq]
    rcases Nat.lt_or_eq_of_le hm with inside | full
    · have hdiv : m / octave = 1 := by
        unfold octave at later inside ⊢
        omega
      have hmod : octave + m % octave = m := by
        unfold octave at later inside ⊢
        omega
      rw [hdiv, hmod, Nat.add_sub_cancel]
    · rw [full, Nat.mul_div_cancel _ hoctave, Nat.mul_mod_left, Nat.add_zero, Nat.mul_comm 2,
        Nat.mul_assoc, ← Nat.pow_succ']
      rfl

theorem spare_eq_zero {q : Nat} (h : q < octave) : spare q = 0 := by
  by_contra positive
  have low := le_of_spare_pos (Nat.pos_of_ne_zero positive)
  have power := Nat.two_pow_pos (spare q)
  rw [octave_eq] at h
  omega

theorem spare_of_steps {m : Nat} (hlow : octave ≤ m) (hhigh : m < 2 * octave) (e : Nat) :
    spare (m * 2 ^ e) = e := by
  rw [octave_eq] at hlow hhigh
  have low := Nat.mul_le_mul_right (2 ^ e) hlow
  have high := Nat.mul_lt_mul_of_pos_right hhigh (Nat.two_pow_pos e)
  rw [← Nat.pow_add] at low
  rw [← Nat.pow_succ', ← Nat.pow_add, Nat.succ_add] at high
  have positive : m * 2 ^ e ≠ 0 := by
    have := Nat.two_pow_pos (52 + e)
    omega
  rw [spare, (Nat.log2_eq_iff positive).mpr ⟨low, high⟩, Nat.add_sub_cancel_left]

/-- **A double rounds to itself.** -/
theorem nearestRank_unitsAt (r : Nat) : nearestRank (unitsAt r) 1 = r := by
  rw [nearestRank_eq, Nat.div_one, Nat.one_mul]
  rcases Nat.lt_or_ge r octave with first | later
  · have units : unitsAt r = r := if_pos first
    rw [units, spare_eq_zero first, Nat.zero_mul, Nat.zero_add, Nat.pow_zero]
    have := roundDiv_mul Nat.one_pos r
    rwa [Nat.mul_one] at this
  · have units : unitsAt r = (octave + r % octave) * 2 ^ (r / octave - 1) := by
      rw [unitsAt, if_neg (by omega), Nat.shiftLeft_eq]
    have hrest : r % octave < octave := Nat.mod_lt r (by decide)
    have hquotient : 1 ≤ r / octave := (Nat.one_le_div_iff (by decide)).mpr later
    have parts := Nat.div_add_mod' r octave
    have octaves : (r / octave - 1) * octave + octave = r / octave * octave := by
      rw [← Nat.succ_mul, Nat.succ_eq_add_one, Nat.sub_add_cancel hquotient]
    rw [units, spare_of_steps (by omega) (by omega), roundDiv_mul (Nat.two_pow_pos _)]
    omega

/-- **The doubles are in the order of their ranks.** -/
theorem unitsAt_le_iff {r q : Nat} : unitsAt r ≤ unitsAt q ↔ r ≤ q := by
  have ranks {r q : Nat} (h : unitsAt r ≤ unitsAt q) : r ≤ q := by
    have := nearestRank_mono Nat.one_pos Nat.one_pos (Nat.mul_le_mul_right 1 h)
    rwa [nearestRank_unitsAt, nearestRank_unitsAt] at this
  refine ⟨ranks, ?_⟩
  intro h
  by_contra less
  have hrq : r = q := Nat.le_antisymm h (ranks (by omega))
  rw [hrq] at less
  exact less (Nat.le_refl _)

/-- A quotient that is at most a double rounds to at most that double. -/
theorem nearestRank_le {num den r : Nat} (hden : 0 < den) (h : num ≤ unitsAt r * den) :
    nearestRank num den ≤ r := by
  have := nearestRank_mono hden Nat.one_pos (by rwa [Nat.mul_one] : num * 1 ≤ unitsAt r * den)
  rwa [nearestRank_unitsAt] at this

/-! ## Integers -/

theorem unitsPerOne_pos : 0 < unitsPerOne := by
  rw [unitsPerOne, Nat.one_shiftLeft]
  exact Nat.two_pow_pos 1074

/-- The significand of a number below `2 ^ 53`, shifted up until it fills an octave. -/
theorem le_shifted {n : Nat} (hn : n ≠ 0) : octave ≤ n * 2 ^ (52 - n.log2) := by
  calc octave ≤ 2 ^ n.log2 * 2 ^ (52 - n.log2) := by
        rw [octave_eq, ← Nat.pow_add]
        exact Nat.pow_le_pow_right Nat.two_pos (by omega)
    _ ≤ n * 2 ^ (52 - n.log2) := Nat.mul_le_mul_right _ (Nat.log2_self_le hn)

theorem shifted_le {n : Nat} (h : n ≤ 2 ^ 53) : n * 2 ^ (52 - n.log2) ≤ 2 * octave := by
  rcases Nat.lt_or_ge 52 n.log2 with full | inside
  · rw [Nat.sub_eq_zero_of_le (Nat.le_of_lt full), Nat.pow_zero, Nat.mul_one]
    exact h
  · calc n * 2 ^ (52 - n.log2) ≤ 2 ^ (n.log2 + 1) * 2 ^ (52 - n.log2) :=
          Nat.mul_le_mul_right _ (Nat.le_of_lt Nat.lt_log2_self)
      _ = 2 * octave := by
        rw [← Nat.pow_add, Nat.add_right_comm, Nat.add_sub_cancel' inside]
        rfl

/-- A number of steps up to `2 ^ 53` is the magnitude of a double, for every step of 52 octaves or
more. -/
theorem exists_unitsAt_of_le {n s : Nat} (h : n ≤ 2 ^ 53) (hs : 52 ≤ s) :
    ∃ r ≤ (s + 2) * octave, unitsAt r = n * (1 <<< s) := by
  rcases Nat.eq_zero_or_pos n with rfl | positive
  · refine ⟨0, Nat.zero_le _, ?_⟩
    rw [Nat.zero_mul]
    rfl
  have hn : n ≠ 0 := Nat.ne_of_gt positive
  refine ⟨(s - (52 - n.log2)) * octave + n * 2 ^ (52 - n.log2), ?_, ?_⟩
  · rw [Nat.add_mul]
    exact Nat.add_le_add (Nat.mul_le_mul_right _ (Nat.sub_le _ _)) (shifted_le h)
  · rw [unitsAt_of_steps (shifted_le h) (.inl (le_shifted hn)), Nat.mul_assoc, ← Nat.pow_add,
      Nat.add_sub_cancel' (by omega), Nat.one_shiftLeft]

/-- The magnitude of a double is rounded to that double. -/
theorem ofUnits_unitsAt (negative : Bool) {num r : Nat} (limit : r < rankLimit)
    (h : unitsAt r = num) : ofUnits negative num 1 = .finite negative ⟨r, limit⟩ := by
  subst h
  unfold ofUnits
  simp only [nearestRank_unitsAt, limit, dif_pos]

theorem ofInt?_of_finite {n : Int} {negative : Bool} {r : Fin rankLimit}
    (h : ofUnits (decide (n < 0)) (n.natAbs * unitsPerOne) 1 = .finite negative r) :
    ofInt? n = some (.finite negative r) := by
  -- unfolded as a function: to compare `ofInt? n` with its body would compute with `2 ^ 1074`
  have body : ofInt? = ofInt? := rfl
  conv at body => rhs; delta ofInt?
  rw [body]
  simp only [h]

theorem ofInt_of_some {n : Int} {x : Binary64} (h : ofInt? n = some x) : ofInt n = .ok x := by
  have body : ofInt = ofInt := rfl
  conv at body => rhs; delta ofInt
  rw [body]
  simp only [h]

/-- **An integer from zero up to `2 ^ 53` is a double.** -/
theorem exists_ofInt {n : Nat} (h : n ≤ 2 ^ 53) :
    ∃ r : Fin rankLimit, ofInt n = .ok (.finite false r) ∧ unitsAt r = n * unitsPerOne := by
  obtain ⟨r, hrank, hunits⟩ : ∃ r ≤ (1074 + 2) * octave, unitsAt r = n * unitsPerOne :=
    exists_unitsAt_of_le h (by decide)
  have limit : r < rankLimit := Nat.lt_of_le_of_lt hrank (by decide)
  refine ⟨⟨r, limit⟩, ofInt_of_some (ofInt?_of_finite ?_), hunits⟩
  have sign : decide ((n : Int) < 0) = false := decide_eq_false (by omega)
  rw [sign, Int.natAbs_natCast, ofUnits_unitsAt false limit hunits]

/-! ## Rounding between integers -/

/-- What is at least a whole number is not rounded below it. -/
theorem le_unitsAt_nearestRank {k x : Nat} (hk : k ≤ 2 ^ 53) (h : k * unitsPerOne ≤ x) :
    k * unitsPerOne ≤ unitsAt (nearestRank x 1) := by
  obtain ⟨r, -, hr⟩ := exists_ofInt hk
  rw [← hr, unitsAt_le_iff, ← nearestRank_unitsAt r]
  apply nearestRank_mono Nat.one_pos Nat.one_pos
  rw [hr]
  exact Nat.mul_le_mul_right 1 h

/-- What is at most a whole number is not rounded above it. -/
theorem unitsAt_nearestRank_le {k x : Nat} (hk : k ≤ 2 ^ 53) (h : x ≤ k * unitsPerOne) :
    unitsAt (nearestRank x 1) ≤ k * unitsPerOne := by
  obtain ⟨r, -, hr⟩ := exists_ofInt hk
  rw [← hr, unitsAt_le_iff]
  apply nearestRank_le Nat.one_pos
  rwa [hr, Nat.mul_one]

/-- A whole number is rounded to itself. -/
theorem unitsAt_nearestRank_of_whole {k : Nat} (hk : k ≤ 2 ^ 53) :
    unitsAt (nearestRank (k * unitsPerOne) 1) = k * unitsPerOne :=
  Nat.le_antisymm (unitsAt_nearestRank_le hk (Nat.le_refl _))
    (le_unitsAt_nearestRank hk (Nat.le_refl _))

/-- Between the floor of a product and the integer after it, nothing is rounded out. -/
theorem unitsAt_nearestRank_between {n u : Nat} (hn : n ≤ 2 ^ 53) (hu : u ≤ unitsPerOne) :
    n * u / unitsPerOne * unitsPerOne ≤ unitsAt (nearestRank (n * u) 1) ∧
      unitsAt (nearestRank (n * u) 1) ≤ (n * u / unitsPerOne + 1) * unitsPerOne := by
  have one := unitsPerOne_pos
  have most : n * u ≤ n * unitsPerOne := Nat.mul_le_mul_left n hu
  have floor : n * u / unitsPerOne ≤ n := Nat.div_le_of_le_mul (by rwa [Nat.mul_comm _ n])
  refine ⟨le_unitsAt_nearestRank (Nat.le_trans floor hn) (Nat.div_mul_le_self _ _), ?_⟩
  rcases Nat.lt_or_eq_of_le floor with less | whole
  · apply unitsAt_nearestRank_le (Nat.le_trans less hn)
    rw [Nat.succ_mul]
    exact Nat.le_of_lt (Nat.lt_div_mul_add one)
  · -- the product is the height itself, and the integer after it need not be a double
    calc unitsAt (nearestRank (n * u) 1) ≤ n * unitsPerOne := unitsAt_nearestRank_le hn most
      _ ≤ (n * u / unitsPerOne + 1) * unitsPerOne :=
        Nat.mul_le_mul_right _ (by omega)

end PixelLayout.Binary64
