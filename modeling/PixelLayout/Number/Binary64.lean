/-!
# Doubles in exact arithmetic

A double of the IEEE 754 binary64 format, and the few operations that a layout needs: sum,
difference, product, order, the double nearest to an integer, and the integer part.

A finite double is a sign and a **rank**: its place among the non-negative finite doubles in
ascending order, counted from zero. Every finite magnitude is a whole number of **units** of
`2 ^ -1074`, and `unitsAt` gives that number. So each operation is exact integer arithmetic on
units, followed by one rounding (`nearestRank`: to the nearest double, a tie to the even rank).
Nothing here depends on the machine's floating point.
-/

namespace PixelLayout

/-- How a number can fail to be what a computation needs. -/
inductive NumberFault where
  /-- Not-a-number has no integer part. -/
  | notANumber
  /-- An infinity has no integer part. -/
  | infinite
  /-- An integer lies beyond the largest double. -/
  | tooLarge
  /-- An integer has more digits than are ever written. -/
  | tooManyDigits
deriving DecidableEq

namespace Binary64

/-- How many non-negative finite doubles there are. -/
def rankLimit : Nat := 0x7FF0000000000000

theorem rankLimit_pos : 0 < rankLimit := by decide

/-- How many ranks lie between a power of two and the next one: `2 ^ 52`. -/
def octave : Nat := 0x10000000000000

/-- The magnitude at a rank, in units of `2 ^ -1074`. The ranks of the first octave are one unit
apart, those of the second too, and from then on the step doubles with each octave. -/
def unitsAt (rank : Nat) : Nat :=
  if rank < octave then rank else (octave + rank % octave) <<< (rank / octave - 1)

/-- The quotient rounded to the nearest integer, a half to the even one. -/
def roundDiv (num den : Nat) : Nat :=
  let quotient := num / den
  let rest := num % den
  if 2 * rest < den then quotient
  else if den < 2 * rest then quotient + 1
  else quotient + quotient % 2

/-- The rank of the double nearest to `num / den` units, a tie to the even rank. A rank of
`rankLimit` or more stands for a magnitude beyond the largest double. -/
def nearestRank (num den : Nat) : Nat :=
  let spare := (num / den).log2 - 52
  spare * octave + roundDiv num (den <<< spare)

end Binary64

/-- A double. -/
inductive Binary64 where
  | nan
  | infinite (negative : Bool)
  | finite (negative : Bool) (rank : Fin Binary64.rankLimit)
deriving DecidableEq

namespace Binary64

/-- The units in the number one: `2 ^ 1074`. -/
def unitsPerOne : Nat := 1 <<< 1074

/-- The double nearest to `num / den` units with the given sign; an infinity beyond the largest. -/
def ofUnits (negative : Bool) (num den : Nat) : Binary64 :=
  if h : nearestRank num den < rankLimit then .finite negative ⟨nearestRank num den, h⟩
  else .infinite negative

/-- The units of a finite double with its sign. -/
def signedUnits (negative : Bool) (rank : Fin rankLimit) : Int :=
  if negative then -(unitsAt rank.val : Int) else unitsAt rank.val

/-- Positive zero. -/
def zero : Binary64 := .finite false ⟨0, rankLimit_pos⟩

/-- The number one. -/
def one : Binary64 := .finite false ⟨0x3FF0000000000000, by decide⟩

/-- The number with its sign turned. -/
def neg : Binary64 → Binary64
  | nan => nan
  | infinite s => infinite !s
  | finite s r => finite (!s) r

/-- The number without its sign. -/
def abs : Binary64 → Binary64
  | nan => nan
  | infinite _ => infinite false
  | finite _ r => finite false r

/-- The rounded sum. A sum of exactly zero is positive unless both numbers are negative. -/
def add : Binary64 → Binary64 → Binary64
  | nan, _ => nan
  | _, nan => nan
  | infinite s, infinite t => if s = t then infinite s else nan
  | infinite s, finite _ _ => infinite s
  | finite _ _, infinite t => infinite t
  | finite s r, finite t q =>
    let sum := signedUnits s r + signedUnits t q
    if sum = 0 then finite (s && t) ⟨0, rankLimit_pos⟩ else ofUnits (decide (sum < 0)) sum.natAbs 1

/-- The rounded difference. -/
def sub (a b : Binary64) : Binary64 := add a b.neg

/-- The rounded product. -/
def mul : Binary64 → Binary64 → Binary64
  | nan, _ => nan
  | _, nan => nan
  | infinite s, infinite t => infinite (s != t)
  | infinite s, finite t q => if q.val = 0 then nan else infinite (s != t)
  | finite s r, infinite t => if r.val = 0 then nan else infinite (s != t)
  | finite s r, finite t q => ofUnits (s != t) (unitsAt r.val * unitsAt q.val) unitsPerOne

/-- The order: `a` is at most `b`. Not-a-number stands in no order, and the two zeros are equal. -/
def le : Binary64 → Binary64 → Bool
  | nan, _ => false
  | _, nan => false
  | infinite true, _ => true
  | _, infinite false => true
  | infinite false, _ => false
  | _, infinite true => false
  | finite s r, finite t q => decide (signedUnits s r ≤ signedUnits t q)

/-- Equality of numbers, which the two zeros have and not-a-number has not. -/
def same (a b : Binary64) : Bool := le a b && le b a

/-- The double nearest to an integer, or none if the integer lies beyond the largest double. -/
def ofInt? (n : Int) : Option Binary64 :=
  match ofUnits (decide (n < 0)) (n.natAbs * unitsPerOne) 1 with
  | infinite _ => none
  | x => some x

/-- The double nearest to an integer, which must not lie beyond the largest double. -/
def ofInt (n : Int) : Except NumberFault Binary64 :=
  match ofInt? n with
  | some x => .ok x
  | none => .error .tooLarge

/-- The integer part: the number without its fraction, so that it goes toward zero. -/
def truncate : Binary64 → Except NumberFault Int
  | nan => .error .notANumber
  | infinite _ => .error .infinite
  | finite s r =>
    let whole := unitsAt r.val / unitsPerOne
    .ok (if s then -(whole : Int) else whole)

/-- The number has a fraction: it is finite and not a whole number. -/
def hasFraction : Binary64 → Bool
  | finite _ r => unitsAt r.val % unitsPerOne != 0
  | _ => false

/-- The double nearest to `digits * 10 ^ exponent`. -/
def ofDecimal (negative : Bool) (digits : Nat) (exponent : Int) : Binary64 :=
  if 0 ≤ exponent then ofUnits negative (digits * Nat.pow 10 exponent.toNat * unitsPerOne) 1
  else ofUnits negative (digits * unitsPerOne) (Nat.pow 10 (-exponent).toNat)

/-- The relative tolerance of `isClose`: one in a thousand million. -/
def closeTolerance : Binary64 := ofDecimal false 1 (-9)

/-- Closeness: `a` and `b` differ by at most `closeTolerance` times the larger of them. Equal
numbers are close; an infinity is close to nothing else, and not-a-number to nothing at all. -/
def isClose (a b : Binary64) : Bool :=
  if same a b then true
  else match a, b with
    | infinite _, _ => false
    | _, infinite _ => false
    | _, _ =>
      let distance := (sub b a).abs
      le distance (mul closeTolerance b).abs || le distance (mul closeTolerance a).abs

end Binary64

end PixelLayout
