import PixelLayout.Number.Binary64

/-!
# Doubles as decimal numerals

A double is written with the fewest digits that read back to it; of two such numerals of one
length the nearer one, and of two equally near ones the one that ends in an even digit
(`shortest`). `Layout` then says where the point goes and when an exponent is written.

The search is exact. The numbers that read back to a double lie between the midpoints to its two
neighbours, and the midpoints belong to it when its rank is even. For one digit, two digits and so
on, one of the two numerals that enclose the double must lie there if any does.

`read?` reads a numeral: an optional sign, digits with at most one point among them, an optional
power of ten; or a name of not-a-number or of an infinity.
-/

namespace PixelLayout.Decimal

/-- The digits of a numeral as one number, and the power of ten of its last digit. -/
structure Scientific where
  digits : Nat
  exponent : Int
deriving DecidableEq

/-- All lengths are scaled by this power of ten, so that every grid of the search is integral. -/
def scale : Nat := Nat.pow 10 360

/-- The numeral with `count` digits that `rank` reads back from, if there is one. `top` is the power
of ten of the leading digit. -/
def withDigits? (rank : Nat) (top : Int) (count : Nat) : Option Scientific :=
  let exponent := top - count + 1
  let step := Nat.pow 10 (exponent + 360).toNat * Binary64.unitsPerOne
  let value := Binary64.unitsAt rank * scale
  let low := Binary64.unitsAt (rank - 1) * scale + value
  let high := value + Binary64.unitsAt (rank + 1) * scale
  let readsBack (d : Nat) : Bool :=
    if rank % 2 = 0 then low ≤ 2 * (d * step) && 2 * (d * step) ≤ high
    else low < 2 * (d * step) && 2 * (d * step) < high
  let below := value / step
  let above := below + 1
  match readsBack below, readsBack above with
  | false, false => none
  | true, false => some ⟨below, exponent⟩
  | false, true => some ⟨above, exponent⟩
  | true, true =>
    let toBelow := value - below * step
    let toAbove := above * step - value
    if toBelow < toAbove then some ⟨below, exponent⟩
    else if toAbove < toBelow then some ⟨above, exponent⟩
    else if below % 2 = 0 then some ⟨below, exponent⟩ else some ⟨above, exponent⟩

/-- The shortest numeral that reads back to the double of a rank above zero. Seventeen digits are
always enough. -/
def shortest (rank : Nat) : Scientific :=
  let whole := Binary64.unitsAt rank * scale / Binary64.unitsPerOne
  let top : Int := (whole.repr.length : Int) - 361
  ((List.range 17).findSome? fun k => withDigits? rank top (k + 1)).getD ⟨0, 0⟩

/-- Where the point goes and how exponents look. -/
structure Layout where
  /-- The least power of ten of the leading digit that is written without an exponent. -/
  positionalFrom : Int
  /-- The least power of ten of the leading digit, above the former, that needs an exponent. -/
  exponentFrom : Int
  /-- An exponent has at least this many digits. -/
  exponentDigits : Nat

/-- Positional from a ten-thousandth up to sixteen digits before the point; an exponent has a sign
and at least two digits. A number always has a point or an exponent. -/
def layout : Layout := ⟨-4, 16, 2⟩

/-- As many zeros as `count` says. -/
def zeros (count : Nat) : List Char := List.replicate count '0'

/-- The digits without the zeros at the end. -/
def significant (digits : Nat) : List Char :=
  (digits.repr.toList.reverse.dropWhile (· == '0')).reverse

/-- The exponent with its sign, padded with zeros. -/
def exponentText (l : Layout) (e : Int) : List Char :=
  let digits := e.natAbs.repr.toList
  (if e < 0 then '-' else '+') :: (zeros (l.exponentDigits - digits.length) ++ digits)

/-- A numeral laid out. -/
def Scientific.text (l : Layout) (s : Scientific) : String :=
  let leading := s.exponent + s.digits.repr.length - 1
  let digits := significant s.digits
  String.ofList <|
    if leading < l.positionalFrom ∨ l.exponentFrom ≤ leading then
      digits.take 1 ++ (if digits.length ≤ 1 then [] else '.' :: digits.drop 1) ++
        'e' :: exponentText l leading
    else if leading < 0 then
      '0' :: '.' :: (zeros (-leading - 1).toNat ++ digits)
    else
      let before := leading.toNat + 1
      if digits.length ≤ before then digits ++ zeros (before - digits.length) ++ ['.', '0']
      else digits.take before ++ '.' :: digits.drop before

/-- The numeral of a double. -/
def text : Binary64 → String
  | .nan => "nan"
  | .infinite negative => if negative then "-inf" else "inf"
  | .finite negative rank =>
    let magnitude := if rank.val = 0 then "0.0" else (shortest rank.val).text layout
    if negative then "-" ++ magnitude else magnitude

/-! ## Reading -/

/-- The number that a list of digits spells. -/
def ofDigits (ds : List Char) : Nat := ds.foldl (fun n d => n * 10 + (d.toNat - '0'.toNat)) 0

/-- A non-empty list of digits as a number. -/
def digits? (ds : List Char) : Option Nat :=
  if ds ≠ [] ∧ ds.all Char.isDigit then some (ofDigits ds) else none

/-- An exponent behind its mark: an optional sign and digits. -/
def exponent? : List Char → Option Int
  | '-' :: ds => (digits? ds).map fun n => -(n : Int)
  | '+' :: ds => (digits? ds).map fun n => (n : Int)
  | ds => (digits? ds).map fun n => (n : Int)

/-- The double nearest to a numeral. A leading digit beyond every double is an infinity, and one
below every double a zero, so a power of ten is only computed where it matters. -/
def nearest (negative : Bool) (ds : List Char) (exponent : Int) : Binary64 :=
  let digits := ofDigits ds
  let leading := exponent + digits.repr.length
  if digits = 0 then .finite negative ⟨0, Binary64.rankLimit_pos⟩
  else if 400 < leading then .infinite negative
  else if leading < -400 then .finite negative ⟨0, Binary64.rankLimit_pos⟩
  else Binary64.ofDecimal negative digits exponent

/-- A numeral without its sign. -/
def unsigned? (negative : Bool) (cs : List Char) : Option Binary64 :=
  let mantissa := cs.takeWhile fun c => c != 'e' && c != 'E'
  let power := cs.drop mantissa.length
  let before := mantissa.takeWhile (· != '.')
  let after := (mantissa.drop before.length).drop 1
  if (before ++ after).all Char.isDigit && (before ++ after) != [] then
    match power with
    | [] => some (nearest negative (before ++ after) (-(after.length : Int)))
    | _ :: rest =>
      (exponent? rest).map fun e => nearest negative (before ++ after) (e - after.length)
  else none

/-- A numeral, or a name of not-a-number or of an infinity in any case of letters. -/
def number? (negative : Bool) (cs : List Char) : Option Binary64 :=
  match cs.map Char.toLower with
  | ['n', 'a', 'n'] => some .nan
  | ['i', 'n', 'f'] => some (.infinite negative)
  | ['i', 'n', 'f', 'i', 'n', 'i', 't', 'y'] => some (.infinite negative)
  | _ => unsigned? negative cs

/-- Reads a double. -/
def read? (s : String) : Option Binary64 :=
  match s.toList with
  | '-' :: cs => number? true cs
  | '+' :: cs => number? false cs
  | cs => number? false cs

end PixelLayout.Decimal
