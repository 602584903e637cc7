import PixelLayout.Artifact.Contents

/-!
# Numerals in the emitted documents

Both documents print their numbers in decimal, with a sign in front of a negative one. A numeral is
made of digits and the sign, so it holds none of the marks that a document puts behind it.
-/

namespace PixelLayout

theorem isDigit_of_mem_natRepr {c : Char} {k : Nat} (h : c ∈ (Nat.repr k).toList) :
    c.isDigit = true := by
  rw [Nat.toList_repr] at h
  exact Nat.isDigit_of_mem_toDigits (by decide) (by decide) h

/-- A numeral is made of digits and the sign. -/
theorem sign_or_digit_of_mem_repr {c : Char} {n : Int} (h : c ∈ n.repr.toList) :
    c = '-' ∨ c.isDigit = true := by
  cases n with
  | ofNat k => exact .inr (isDigit_of_mem_natRepr h)
  | negSucc k =>
    rw [Int.repr, String.toList_append] at h
    rcases List.mem_append.mp h with sign | digits
    · exact .inl (List.mem_singleton.mp sign)
    · exact .inr (isDigit_of_mem_natRepr digits)

theorem natRepr_inj {k l : Nat} : Nat.repr k = Nat.repr l ↔ k = l := by
  rw [← String.toList_inj, Nat.toList_repr, Nat.toList_repr, toDigits_inj]

/-- A sign in front tells the negative numbers from the others. -/
theorem natRepr_ne_sign (k l : Nat) : Nat.repr k ≠ "-" ++ Nat.repr l := by
  intro same
  have sign : '-' ∈ (Nat.repr k).toList := by
    rw [same, String.toList_append]
    exact List.mem_append_left _ (List.mem_singleton_self _)
  exact absurd (isDigit_of_mem_natRepr sign) (by decide)

/-- An integer is known by its numeral. -/
theorem repr_inj {m n : Int} : m.repr = n.repr ↔ m = n := by
  refine ⟨fun same => ?_, congrArg _⟩
  cases m with
  | ofNat k =>
    cases n with
    | ofNat l => rw [natRepr_inj.mp same]
    | negSucc l => exact absurd same (natRepr_ne_sign k _)
  | negSucc k =>
    cases n with
    | ofNat l => exact absurd same.symm (natRepr_ne_sign l _)
    | negSucc l =>
      have digits := natRepr_inj.mp ((String.append_right_inj "-").mp same)
      rw [Nat.succ.inj digits]

/-- No numeral holds a character that is neither a digit nor the sign. -/
theorem not_mem_repr {mark : Char} (hsign : mark ≠ '-') (hdigit : mark.isDigit = false) (n : Int) :
    mark ∉ n.repr.toList := by
  intro h
  rcases sign_or_digit_of_mem_repr h with sign | digit
  · exact hsign sign
  · rw [hdigit] at digit
    exact Bool.false_ne_true digit

theorem not_mem_sizeText {mark : Char} (hsign : mark ≠ '-') (hdigit : mark.isDigit = false)
    (size : Option Int) : mark ∉ (Artifact.sizeText size).toList := by
  cases size with
  | none => exact List.not_mem_nil
  | some n => exact not_mem_repr hsign hdigit n

end PixelLayout
