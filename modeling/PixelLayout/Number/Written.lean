import PixelLayout.Number.Binary64

/-!
# Integers in words

An integer stands in a message in decimal, without its sign in at most `mostDigits` digits. A longer
one is not read from a text (`Number/Integer`), and it is not written either: words that would hold
it cannot be made, and whoever wants them is left with `NumberFault.tooManyDigits`.
-/

namespace PixelLayout

/-- The greatest number of digits of an integer in a text. -/
def mostDigits : Nat := 4300

/-- The integer is short enough to be written. -/
def Writable (n : Int) : Prop := (Nat.toDigits 10 n.natAbs).length ≤ mostDigits

instance (n : Int) : Decidable (Writable n) := inferInstanceAs (Decidable (_ ≤ _))

/-- Words that hold all of these integers can be made. -/
def AllWritable (ns : List Int) : Prop := ∀ n ∈ ns, Writable n

instance (ns : List Int) : Decidable (AllWritable ns) :=
  inferInstanceAs (Decidable (∀ n ∈ ns, Writable n))

theorem toDigits_inj {i j : Nat} : Nat.toDigits 10 i = Nat.toDigits 10 j ↔ i = j := by
  refine ⟨fun same => ?_, congrArg _⟩
  rw [← Nat.ofDigitChars_ten_toDigits (n := i), same, Nat.ofDigitChars_ten_toDigits]

/-- The integers with too many digits begin at a power of ten. -/
theorem writable_iff {n : Int} : Writable n ↔ n.natAbs < Nat.pow 10 mostDigits := by
  -- for any number of digits, so that the power stays unevaluated
  have digits (k : Nat) (hk : 0 < k) :
      (Nat.toDigits 10 n.natAbs).length ≤ k ↔ n.natAbs < Nat.pow 10 k :=
    Nat.length_toDigits_le_iff (by decide) hk
  exact digits mostDigits (by decide)

theorem allWritable_nil : AllWritable [] := nofun

end PixelLayout
