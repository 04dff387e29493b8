import PaymentDrill.Decimal.Shortest

/-!
# Layouts of decimal numbers

Three ways to write a binary64 number. The plain layout never uses an exponent and
writes no point in front of an empty fraction. The scaled layout always shows a
fraction, and moves to an exponent for very large and very small numbers. The
fixed layout rounds the exact value to a given number of places, a half to even.
-/
namespace PaymentDrill

/-- Decimal digits of a natural number. -/
def natText (n : Nat) : List Char := Nat.toDigits 10 n

def withSign (negative : Bool) (text : List Char) : List Char :=
  if negative then '-' :: text else text

def dropTrailingZeros (ds : List Char) : List Char :=
  (ds.reverse.dropWhile (· == '0')).reverse

namespace Decimal

/-- Digits in front of the point. -/
def whole (d : Decimal) : List Char :=
  let ds := natText d.digits
  let places := (-d.exponent).toNat
  if ds.length ≤ places then ['0']
  else ds.take (ds.length - places) ++ List.replicate d.exponent.toNat '0'

/-- Digits behind the point, without trailing zeros. -/
def fraction (d : Decimal) : List Char :=
  let ds := natText d.digits
  let places := (-d.exponent).toNat
  dropTrailingZeros (List.replicate (places - ds.length) '0' ++ ds.drop (ds.length - places))

/-- Positional text; the point is written only in front of a fraction. -/
def plain (d : Decimal) : List Char :=
  match d.fraction with
  | [] => d.whole
  | ds => d.whole ++ '.' :: ds

/-- Positional text with at least one place behind the point. -/
def pointed (d : Decimal) : List Char :=
  match d.fraction with
  | [] => d.whole ++ ['.', '0']
  | ds => d.whole ++ '.' :: ds

/-- Exponent of the first digit. -/
def leading (d : Decimal) : Int :=
  (natText d.digits).length - 1 + d.exponent

/-- Scientific text: one digit, the others behind a point, a signed exponent without padding. -/
def scientific (d : Decimal) : List Char :=
  let mantissa := match natText d.digits with
    | [] => []
    | c :: cs => match dropTrailingZeros cs with
      | [] => [c]
      | ds => c :: '.' :: ds
  let sign := if d.leading < 0 then '-' else '+'
  mantissa ++ 'e' :: sign :: natText d.leading.natAbs

/-- Positional from `1e-5` to below `1e16`, scientific beyond. -/
def scaled (d : Decimal) : List Char :=
  if -5 ≤ d.leading ∧ d.leading ≤ 15 then d.pointed else d.scientific

end Decimal

namespace Binary64

/-- The names of the values that are not finite, or the finite magnitude as `write` lays it out. -/
def textWith (write : Binary64 → List Char) : Binary64 → List Char
  | .nan => "NaN".toList
  | .infinite s => withSign s "inf".toList
  | x@(.finite s _ _ _) => withSign s (write x)

/-- The shortest digits that read back, never with an exponent. -/
def toText (x : Binary64) : List Char := x.textWith fun y => (Decimal.shortest .larger y).plain

/-- The shortest digits that read back, in the layout used inside messages. -/
def toScaledText (x : Binary64) : List Char :=
  x.textWith fun y => (Decimal.shortest .even y).scaled

/-- The exact value rounded to `places` decimals, a half to the even neighbour. -/
def toFixedText (places : Nat) (x : Binary64) : List Char :=
  x.textWith fun y =>
    let n := roundDiv (y.numerator * Nat.pow 10 places) y.denominator
    let ds := natText (n % Nat.pow 10 places)
    natText (n / Nat.pow 10 places) ++ '.' :: (List.replicate (places - ds.length) '0' ++ ds)

end Binary64

namespace Decimal

example : plain ⟨15, -1⟩ = "1.5".toList := by decide +kernel
example : plain ⟨10, -3⟩ = "0.01".toList := by decide +kernel
example : plain ⟨2, 21⟩ = "2000000000000000000000".toList := by decide +kernel
example : scaled ⟨1, 3⟩ = "1000.0".toList := by decide +kernel
example : scaled ⟨1, 22⟩ = "1e+22".toList := by decide +kernel
example : scaled ⟨95, -8⟩ = "9.5e-7".toList := by decide +kernel

end Decimal

end PaymentDrill
