import PaymentDrill.Decimal.Layout

/-!
# Reading decimal text

Correctly rounded reading of decimal numerals: an optional minus sign, digits, an
optional fraction, an optional exponent of ten, and the names of the values that
are not finite.
-/
namespace PaymentDrill

namespace Decimal

/-- An optionally signed run of digits and nothing else. -/
def exponentOfText? (cs : List Char) : Option Int :=
  let (negative, ds) := match cs with
    | '-' :: r => (true, r)
    | '+' :: r => (false, r)
    | r => (false, r)
  if ds = [] ∨ ¬ ds.all Char.isDigit then none
  else
    let n : Int := Nat.ofDigitChars 10 ds 0
    some (if negative then -n else n)

/-- An unsigned numeral with at least one digit. -/
def ofText? (cs : List Char) : Option Decimal :=
  let mantissa := cs.takeWhile (fun c => c != 'e' && c != 'E')
  let scale := cs.dropWhile (fun c => c != 'e' && c != 'E')
  let front := mantissa.takeWhile (· != '.')
  let back := (mantissa.dropWhile (· != '.')).drop 1
  let ds := front ++ back
  let exponent? := match scale with
    | [] => some 0
    | _ :: r => exponentOfText? r
  if ds = [] ∨ ¬ ds.all Char.isDigit then none
  else exponent?.map fun e => ⟨Nat.ofDigitChars 10 ds 0, e - back.length⟩

/-- Rounding to binary64 that does not build numbers far outside the range of the format. -/
def toBinary64Capped (negative : Bool) (d : Decimal) : Binary64 :=
  if d.digits = 0 ∨ d.leading < -400 then .finite negative 0 (-1074) Binary64.canonical_zero
  else if 400 < d.leading then .infinite negative
  else d.toBinary64 negative

end Decimal

/-- The value that decimal text denotes, correctly rounded. -/
def Binary64.ofText? (cs : List Char) : Option Binary64 :=
  let (negative, body) := match cs with
    | '-' :: r => (true, r)
    | r => (false, r)
  if body = "inf".toList then some (.infinite negative)
  else if cs = "NaN".toList then some .nan
  else (Decimal.ofText? body).map (Decimal.toBinary64Capped negative)

end PaymentDrill
