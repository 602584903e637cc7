import PixelLayout.Number.Decimal
import PixelLayout.Number.Written

/-!
# Shares of a height

A split divides a height by a **share**, which an author gives as an integer, a truth value or a
double. Integers and truth values are exact; as soon as a double takes part, the other number is
rounded to a double too, and the result is rounded.

`cut` is the one place where a share meets a height: the integer part of their product.
-/

namespace PixelLayout

/-- A share of a height, of the kind in which it was given. -/
inductive Share where
  | whole (n : Int)
  | flag (b : Bool)
  | real (x : Binary64)
deriving DecidableEq

namespace Share

/-- The share as a message prints it. -/
def text : Share → String
  | whole n => n.repr
  | flag b => if b then "True" else "False"
  | real x => Decimal.text x

/-- The integers in the text of a share. -/
def numbers : Share → List Int
  | whole n => [n]
  | flag _ => []
  | real _ => []

/-- The integer that an exact share stands for; none for a double. -/
def integer? : Share → Option Int
  | whole n => some n
  | flag b => some (if b then 1 else 0)
  | real _ => none

/-- The share as a double. -/
def toReal : Share → Except NumberFault Binary64
  | whole n => Binary64.ofInt n
  | flag b => .ok (if b then Binary64.one else Binary64.zero)
  | real x => .ok x

/-- The share lies between zero and one, both included. Not-a-number does not. -/
def isProper : Share → Bool
  | whole n => decide (0 ≤ n ∧ n ≤ 1)
  | flag _ => true
  | real x => Binary64.zero.le x && x.le Binary64.one

/-- The sum of two shares: exact for two exact ones, otherwise a rounded double. -/
def add (a b : Share) : Except NumberFault Share :=
  match a.integer?, b.integer? with
  | some m, some n => .ok (whole (m + n))
  | _, _ => do
    let x ← a.toReal
    let y ← b.toReal
    return real (x.add y)

/-- What is left of one whole beside a share, as a double. -/
def complement (a : Share) : Except NumberFault Share := do
  return real (Binary64.one.sub (← a.toReal))

/-- The share is one, up to the tolerance of `Binary64.isClose`. -/
def isCloseToOne (a : Share) : Except NumberFault Bool := do
  return (← a.toReal).isClose Binary64.one

/-- The pixels that a share takes of a height. -/
def cut (height : Int) (a : Share) : Except NumberFault Int :=
  match a with
  | real x => do ((← Binary64.ofInt height).mul x).truncate
  | whole n => .ok (height * n)
  | flag b => .ok (if b then height else 0)

end Share

end PixelLayout
