import PixelLayout.Number.Share
import PixelLayout.Proofs.Containment
import PixelLayout.Proofs.Nearest

/-!
# A proper share cuts inside its height

Whatever its kind, a share between zero and one is a number of units between none and one whole
(`Share.HasUnits`), and its cut is the same function of them: the units of the height times those of
the share, rounded to a double, divided by one whole. So one argument serves all kinds.

The share takes between nothing and all of a height, whatever the rounding of the product does: the
height is a double itself (up to `2 ^ 53` pixels), the exact product is at most that double, and
rounding is monotone. So in a tree whose shares are proper every split cuts inside its height
(`visits_cutInside`), however deep it lies.
-/

namespace PixelLayout

namespace Binary64

theorem unitsAt_one : unitsAt 0x3FF0000000000000 = unitsPerOne := by decide +kernel

/-- A double between zero and one is finite, its magnitude is at most that of one, and it has a sign
only as the negative zero. -/
theorem exists_finite_of_proper {x : Binary64} (low : zero.le x = true) (high : x.le one = true) :
    ∃ s r, x = .finite s r ∧ unitsAt r ≤ unitsPerOne ∧ (s = true → unitsAt r = 0) := by
  cases x with
  | nan => cases low
  | infinite s =>
    cases s with
    | false => cases high
    | true => cases low
  | finite s r =>
    have hlow : (0 : Int) ≤ signedUnits s r := of_decide_eq_true low
    have hhigh : signedUnits s r ≤ unitsAt 0x3FF0000000000000 := of_decide_eq_true high
    rw [unitsAt_one] at hhigh
    refine ⟨s, r, rfl, ?_, ?_⟩
    all_goals
      unfold signedUnits at hlow hhigh
      generalize unitsPerOne = one at hhigh ⊢
      cases s
    · simp only [Bool.false_eq_true, if_false] at hhigh
      omega
    · simp only [if_true] at hlow
      omega
    · exact fun h => nomatch h
    · simp only [if_true] at hlow
      exact fun _ => by omega

theorem signedUnits_of_zero {s : Bool} {r : Fin rankLimit} (h : s = true → unitsAt r = 0) :
    signedUnits s r = unitsAt r := by
  cases s with
  | false => rfl
  | true =>
    rw [signedUnits, if_pos rfl, h rfl]
    rfl

theorem mul_finite (s t : Bool) (r q : Fin rankLimit) :
    mul (.finite s r) (.finite t q) =
      ofUnits (s != t) (unitsAt r * unitsAt q) unitsPerOne := rfl

theorem truncate_finite (s : Bool) (r : Fin rankLimit) :
    truncate (.finite s r) = .ok (if s then -((unitsAt r / unitsPerOne : Nat) : Int)
      else (unitsAt r / unitsPerOne : Nat)) := rfl

/-- The integer part of the product with a double between zero and one. -/
theorem truncate_mul {r q : Fin rankLimit} {s : Bool} (hq : unitsAt q ≤ unitsPerOne)
    (hs : s = true → unitsAt q = 0) :
    (mul (.finite false r) (.finite s q)).truncate =
      .ok (unitsAt (nearestRank (unitsAt r * unitsAt q) unitsPerOne) / unitsPerOne : Nat) := by
  have rank : nearestRank (unitsAt r * unitsAt q) unitsPerOne ≤ r :=
    nearestRank_le unitsPerOne_pos (Nat.mul_le_mul_left _ hq)
  have limit : nearestRank (unitsAt r * unitsAt q) unitsPerOne < rankLimit :=
    Nat.lt_of_le_of_lt rank r.isLt
  have product : mul (.finite false r) (.finite s q) = .finite (false != s) ⟨_, limit⟩ := by
    rw [mul_finite]
    exact dif_pos limit
  rw [product, truncate_finite]
  cases s with
  | false => rfl
  | true =>
    -- the negative zero: its product is zero, which has no sign as an integer
    have zero : nearestRank (unitsAt r * unitsAt q) unitsPerOne = 0 := by
      apply Nat.le_zero.mp
      apply nearestRank_le unitsPerOne_pos
      rw [hs rfl, Nat.mul_zero]
      exact Nat.zero_le _
    have nothing : unitsAt 0 / unitsPerOne = 0 := by
      rw [show unitsAt 0 = 0 from rfl, Nat.zero_div]
    simp only [zero, nothing]
    rfl

end Binary64

open Binary64

namespace Share

/-! ## Shares in units -/

/-- The number that a share stands for. Infinities and not-a-number stand for none. -/
def value? : Share → Option ℚ
  | whole n => some n
  | flag b => some (if b then 1 else 0)
  | real (.finite s r) => some (Binary64.value s r)
  | real _ => none

/-- A share between zero and one is a finite double between zero and one. -/
theorem exists_toReal {s : Share} (proper : s.isProper = true) :
    ∃ t q, s.toReal = .ok (.finite t q) ∧ signedUnits t q = unitsAt q ∧
      unitsAt q ≤ unitsPerOne := by
  cases s with
  | whole n =>
    obtain ⟨low, high⟩ : 0 ≤ n ∧ n ≤ 1 := of_decide_eq_true proper
    obtain ⟨k, rfl⟩ := Int.eq_ofNat_of_zero_le low
    obtain ⟨r, hr, units⟩ := exists_ofInt (n := k) (by omega)
    refine ⟨false, r, hr, rfl, ?_⟩
    calc unitsAt r = k * unitsPerOne := units
      _ ≤ 1 * unitsPerOne := Nat.mul_le_mul_right _ (by omega)
      _ = unitsPerOne := Nat.one_mul _
  | flag b =>
    cases b with
    | false => exact ⟨false, ⟨0, rankLimit_pos⟩, rfl, rfl, Nat.zero_le _⟩
    | true => exact ⟨false, ⟨_, by decide⟩, rfl, rfl, Nat.le_of_eq unitsAt_one⟩
  | real x =>
    obtain ⟨low, high⟩ := (Bool.and_eq_true _ _).mp proper
    obtain ⟨t, q, rfl, hq, ht⟩ := exists_finite_of_proper low high
    exact ⟨t, q, rfl, signedUnits_of_zero ht, hq⟩

/-- A share that is a double takes the integer part of its product with the height. -/
theorem cut_real {height : Int} {x y : Binary64} (h : ofInt height = .ok y) :
    Share.cut height (.real x) = (y.mul x).truncate := by
  rw [Share.cut, h]
  rfl

/-- The share stands for `u` units, between none and one whole, and cuts accordingly. -/
structure HasUnits (s : Share) (u : Nat) : Prop where
  le_one : u ≤ unitsPerOne
  value : s.value? = some ((u : ℚ) / unitsPerOne)
  cut : ∀ n : Nat, n ≤ 2 ^ 53 →
    s.cut n = .ok (unitsAt (nearestRank (n * u) 1) / unitsPerOne : Nat)
  of_exact : s.integer?.isSome → ∃ k ≤ 1, u = k * unitsPerOne

/-- The product with an exact share is a whole number, so that rounding leaves it as it is. -/
theorem unitsAt_nearestRank_of_exact {n k : Nat} (hn : n ≤ 2 ^ 53) (hk : k ≤ 1) :
    unitsAt (nearestRank (n * (k * unitsPerOne)) 1) = n * k * unitsPerOne := by
  rw [← Nat.mul_assoc]
  apply unitsAt_nearestRank_of_whole
  calc n * k ≤ n * 1 := Nat.mul_le_mul_left n hk
    _ ≤ 2 ^ 53 := by omega

/-- An exact share of zero or one has zero or one whole units. -/
theorem hasUnits_of_exact {s : Share} {k : Nat} (hk : k ≤ 1) (value : s.value? = some (k : ℚ))
    (cut : ∀ height, s.cut height = .ok (height * k)) : s.HasUnits (k * unitsPerOne) := by
  have one := unitsPerOne_pos
  have some : (unitsPerOne : ℚ) ≠ 0 := Nat.cast_ne_zero.mpr (Nat.ne_of_gt one)
  refine ⟨?_, ?_, ?_, fun _ => ⟨k, hk, rfl⟩⟩
  · calc k * unitsPerOne ≤ 1 * unitsPerOne := Nat.mul_le_mul_right _ hk
      _ = unitsPerOne := Nat.one_mul _
  · rw [value, Nat.cast_mul, mul_div_cancel_right₀ _ some]
  · intro n hn
    rw [cut, unitsAt_nearestRank_of_exact hn hk, Nat.mul_div_cancel _ one, Int.natCast_mul]

/-- The cut is at most the height. -/
theorem cut_units_le {n u : Nat} (hn : n ≤ 2 ^ 53) (hu : u ≤ unitsPerOne) :
    unitsAt (nearestRank (n * u) 1) / unitsPerOne ≤ n := by
  apply Nat.div_le_of_le_mul
  rw [Nat.mul_comm _ n]
  exact unitsAt_nearestRank_le hn (Nat.mul_le_mul_left n hu)

/-- **Every share between zero and one is a number of units, and cuts as such.** -/
theorem exists_hasUnits {s : Share} (proper : s.isProper = true) : ∃ u, s.HasUnits u := by
  have one := unitsPerOne_pos
  cases s with
  | whole n =>
    obtain ⟨low, high⟩ : 0 ≤ n ∧ n ≤ 1 := of_decide_eq_true proper
    obtain ⟨k, rfl⟩ := Int.eq_ofNat_of_zero_le low
    refine ⟨_, hasUnits_of_exact (Int.ofNat_le.mp high) ?_ fun _ => rfl⟩
    rw [value?, Int.cast_natCast]
  | flag b =>
    refine ⟨_, hasUnits_of_exact (Bool.toNat_le b) ?_ ?_⟩
    · cases b <;> simp [value?]
    · intro height
      cases b <;> simp [Share.cut]
  | real x =>
    obtain ⟨low, high⟩ := (Bool.and_eq_true _ _).mp proper
    obtain ⟨t, q, rfl, hq, ht⟩ := exists_finite_of_proper low high
    refine ⟨unitsAt q, hq, ?_, ?_, fun exact => (Bool.false_ne_true exact).elim⟩
    · rw [value?, Binary64.value, signedUnits_of_zero ht, Int.cast_natCast]
    · intro n hn
      obtain ⟨r, hofInt, hr⟩ := exists_ofInt hn
      have reduced : nearestRank (unitsAt r * unitsAt q) unitsPerOne =
          nearestRank (n * unitsAt q) 1 := by
        have scaled := nearestRank_scale (n * unitsAt q) Nat.one_pos one
        rwa [Nat.one_mul, Nat.mul_right_comm, ← hr] at scaled
      rw [cut_real hofInt, truncate_mul hq ht, reduced]

/-- **A share between zero and one takes between nothing and all of a height** of up to `2 ^ 53`
pixels. -/
theorem exists_cut {s : Share} (proper : s.isProper = true) {height : Int} (nonneg : 0 ≤ height)
    (exact : height ≤ 2 ^ 53) : ∃ up, s.cut height = .ok up ∧ 0 ≤ up ∧ up ≤ height := by
  obtain ⟨u, h⟩ := exists_hasUnits proper
  obtain ⟨n, rfl⟩ := Int.eq_ofNat_of_zero_le nonneg
  have hn : n ≤ 2 ^ 53 := by omega
  exact ⟨_, h.cut n hn, Int.natCast_nonneg _, Int.ofNat_le.mpr (cut_units_le hn h.le_one)⟩

end Share

/-- Where a split is met, its first share is between zero and one. -/
def Visit.ProperCut (v : Visit) : Prop :=
  ∀ {a s b t r}, v.node = .split a s b t r → s.isProper = true

namespace Pass

theorem upper_within {s : Share} (proper : s.isProper = true) {d : Rect} (nonneg : 0 ≤ d.height)
    (exact : d.height ≤ 2 ^ 53) : 0 ≤ upper s d ∧ upper s d ≤ d.height := by
  obtain ⟨up, hcut, hup⟩ := Share.exists_cut proper nonneg exact
  rw [upper, hcut]
  exact hup

/-- The slots of a stack are as high as its area, or a part of that. -/
theorem slot_height_within (axis : Axis) {d : Rect} (nonneg : 0 ≤ d.height) (count k : Nat)
    (n : Node) :
    0 ≤ (slot axis d (extent axis d / count) k n).height ∧
      (slot axis d (extent axis d / count) k n).height ≤ d.height := by
  cases axis with
  | vertical =>
    exact ⟨Int.ediv_nonneg nonneg (Int.natCast_nonneg count), Int.ediv_le_self _ nonneg⟩
  | horizontal => exact ⟨nonneg, Int.le_refl _⟩

mutual
/-- **In a tree of proper shares every split cuts inside its height**, by induction on the tree: no
cut makes an area higher than the one it cuts. -/
theorem visits_cutInside (p : Profile) : ∀ (n : Node) (d : Rect), 0 ≤ d.height → d.height ≤ 2 ^ 53 →
    (∀ v ∈ visits p n d, v.ProperCut) → ∀ v ∈ visits p n d, v.CutsInside
  | .stack axis nodes r, d, nonneg, exact, proper => by
    rw [visits] at proper ⊢
    obtain ⟨_, below⟩ := List.forall_mem_cons.mp proper
    refine List.forall_mem_cons.mpr ⟨trivial, ?_⟩
    exact visitsAll_cutInside p axis d _ nonneg exact 0 nodes below
  | .split a s b t r, d, nonneg, exact, proper => by
    rw [visits] at proper ⊢
    obtain ⟨own, below⟩ := List.forall_mem_cons.mp proper
    obtain ⟨hfirst, hsecond⟩ := List.forall_mem_append.mp below
    obtain ⟨up, hcut, hup⟩ := Share.exists_cut (own rfl) nonneg exact
    obtain ⟨hlow, hhigh⟩ := upper_within (own rfl) nonneg exact
    have cuts : (Visit.mk (.split a s b t r) d).CutsInside :=
      ⟨up, by rw [hcut]; rfl, hup⟩
    refine List.forall_mem_cons.mpr ⟨cuts, List.forall_mem_append.mpr ⟨?_, ?_⟩⟩
    · exact visits_cutInside p a _ hlow (Int.le_trans hhigh exact) hfirst
    · apply visits_cutInside p b _ _ _ hsecond
      · simp only [lowerPart]
        omega
      · simp only [lowerPart]
        omega
  | .list items k r, d, _, _, _ => by
    rw [visits]
    refine List.forall_mem_cons.mpr ⟨trivial, ?_⟩
    intro v hv
    obtain ⟨⟨t, hnode⟩, _⟩ := mem_visitItems hv
    rw [Visit.CutsInside, hnode]
    trivial
  | .tile t, d, _, _, _ => List.forall_mem_singleton.mpr trivial
  | .separator axis r, d, _, _, _ => List.forall_mem_singleton.mpr trivial
  | .bare r, d, _, _, _ => List.forall_mem_singleton.mpr trivial
termination_by structural n => n

theorem visitsAll_cutInside (p : Profile) (axis : Axis) (d : Rect) (count : Nat)
    (nonneg : 0 ≤ d.height) (exact : d.height ≤ 2 ^ 53) : ∀ (k : Nat) (ns : List Node),
      (∀ v ∈ visitsAll p axis d (extent axis d / count) k ns, v.ProperCut) →
        ∀ v ∈ visitsAll p axis d (extent axis d / count) k ns, v.CutsInside
  | _, [], _ => fun v hv => absurd hv List.not_mem_nil
  | k, n :: ns, proper => by
    rw [visitsAll] at proper ⊢
    obtain ⟨hhere, hrest⟩ := List.forall_mem_append.mp proper
    obtain ⟨hlow, hhigh⟩ := slot_height_within axis nonneg count k n
    exact List.forall_mem_append.mpr
      ⟨visits_cutInside p n _ hlow (Int.le_trans hhigh exact) hhere,
        visitsAll_cutInside p axis d count nonneg exact _ ns hrest⟩
termination_by structural _ ns => ns
end

end Pass

end PixelLayout
