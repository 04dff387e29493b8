import PaymentDrill.Binary64

/-!
# Shortest decimals of binary64 numbers

The decimal with the fewest digits that reads back as a given value. Multiples of
`10 ^ k` form a grid; the search goes from coarse grids to fine ones and stops at
the first grid on which a neighbour of the value reads back. A dyadic number lies
on some decimal grid itself, so the search ends there at the latest.
-/
namespace PaymentDrill

/-- The number `digits * 10 ^ exponent`. -/
structure Decimal where
  digits : Nat
  exponent : Int
  deriving DecidableEq, Repr

namespace Decimal

/-- The nearest binary64 value, with the given sign. -/
def toBinary64 (negative : Bool) (d : Decimal) : Binary64 :=
  Binary64.ofDecimal negative d.digits d.exponent

/-- The value without its sign. -/
def magnitude : Binary64 → Binary64
  | .nan => .nan
  | .infinite _ => .infinite false
  | .finite _ m e h => .finite false m e h

/-- Which of two equally near decimals is taken. -/
inductive Tie where
  | larger
  /-- The one whose last digit is even. -/
  | even
  deriving DecidableEq

/-- Whether the larger neighbour is taken when the smaller one has these digits. -/
def Tie.up (tie : Tie) (low : Nat) : Bool :=
  match tie with
  | .larger => true
  | .even => low % 2 == 1

/-- The neighbour of `num / den` on the grid of `10 ^ k` that reads back as `x`. Of two the nearer
is taken. -/
def onGrid (tie : Tie) (x : Binary64) (num den : Nat) (k : Int) : Option Decimal :=
  let n := num * Nat.pow 10 (-k).toNat
  let d := den * Nat.pow 10 k.toNat
  let low : Decimal := ⟨n / d, k⟩
  let high : Decimal := ⟨n / d + 1, k⟩
  if low.toBinary64 false = x then
    if high.toBinary64 false = x ∧ (d < 2 * (n % d) ∨ d = 2 * (n % d) ∧ tie.up low.digits) then
      some high
    else some low
  else if high.toBinary64 false = x then some high
  else none

/-- The first hit among the grids of `10 ^ (k + grids)` down to `10 ^ k`. The last of them is taken
to hold the number itself. -/
def search (tie : Tie) (x : Binary64) (num den : Nat) : Nat → Int → Decimal
  | 0, k => ⟨num * Nat.pow 10 (-k).toNat / (den * Nat.pow 10 k.toNat), k⟩
  | grids + 1, k =>
    match onGrid tie x num den (k + (grids + 1 : Nat)) with
    | some d => d
    | none => search tie x num den grids k

/-- An exponent of ten that is not below the leading decimal digit of `num / den`. -/
def leadingBound (num den : Nat) : Int :=
  (Binary64.leadingBit num den + 1) * 30103 / 100000 + 1

/-- The fewest digits that read back as the magnitude of a finite value; zero for the others. -/
def shortest (tie : Tie) : Binary64 → Decimal
  | .finite s m e h =>
    if m = 0 then ⟨0, 0⟩
    else
      let x := Binary64.finite s m e h
      let last := min e 0
      let first := leadingBound x.numerator x.denominator
      search tie (magnitude x) x.numerator x.denominator (first - last).toNat last
  | _ => ⟨0, 0⟩

example : shortest .larger (Binary64.ofDecimal false 1 (-1)) = ⟨1, -1⟩ := by decide +kernel

example : shortest .larger (Binary64.ofDecimal false 5 (-324)) = ⟨5, -324⟩ := by decide +kernel

/-- Two decimals of the same length are equally near, and both read back. -/
example : shortest .larger (Binary64.ofDecimal true 220772201150824625 (-2)) =
    ⟨22077220115082463, -1⟩ := by decide +kernel

example : shortest .even (Binary64.ofDecimal true 220772201150824625 (-2)) =
    ⟨22077220115082462, -1⟩ := by decide +kernel

end Decimal

end PaymentDrill
