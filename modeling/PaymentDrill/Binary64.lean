/-!
# Binary64 numbers

The values of the 64-bit binary format as exact data. A finite value is a signed
integer multiple of a power of two in its one canonical form, so two values are
equal as data exactly when the format tells them apart by no bit (all NaNs count
as one). Each operation computes its exact result in integers and rounds it once,
to nearest with ties to even. No runtime float operation is involved.
-/
namespace PaymentDrill

/-- The significand fills its 53 bits, or the exponent is already the least one. -/
def Binary64.Canonical (significand : Nat) (exponent : Int) : Prop :=
  significand < Nat.pow 2 53 ∧ -1074 ≤ exponent ∧ exponent ≤ 971 ∧
    (Nat.pow 2 52 ≤ significand ∨ exponent = -1074)

instance (m : Nat) (e : Int) : Decidable (Binary64.Canonical m e) := by
  unfold Binary64.Canonical
  infer_instance

/-- A finite value is `significand * 2 ^ exponent`, negated when `negative`; zero keeps its sign. -/
inductive Binary64 where
  | nan
  | infinite (negative : Bool)
  | finite (negative : Bool) (significand : Nat) (exponent : Int)
      (canonical : Binary64.Canonical significand exponent)
  deriving DecidableEq

namespace Binary64

theorem canonical_zero : Canonical 0 (-1074) := by decide

def zero : Binary64 := .finite false 0 (-1074) canonical_zero

instance : Inhabited Binary64 := ⟨zero⟩

/-- The integer nearest to `num / den`; a half goes to the even neighbour. -/
def roundDiv (num den : Nat) : Nat :=
  let q := num / den
  let r := num % den
  if 2 * r < den ∨ (2 * r = den ∧ q % 2 = 0) then q else q + 1

/-- Exponent of the leading bit of the positive quotient `num / den`. -/
def leadingBit (num den : Nat) : Int :=
  let l : Int := (Nat.log2 num : Int) - Nat.log2 den
  if den * Nat.pow 2 l.toNat ≤ num * Nat.pow 2 (-l).toNat then l else l - 1

/-- A significand and exponent as a value; what fits no canonical form has overflowed. -/
def ofParts (negative : Bool) (significand : Nat) (exponent : Int) : Binary64 :=
  if h : Canonical significand exponent then .finite negative significand exponent h
  else .infinite negative

/-- The value nearest to `num / den`, ties to even. The unit in the last place is chosen before
rounding, and a significand that rounds up to the next power of two moves to the next exponent. -/
def ofRatio (negative : Bool) (num den : Nat) : Binary64 :=
  if num = 0 then .finite negative 0 (-1074) canonical_zero
  else
    let e := max (leadingBit num den - 52) (-1074)
    let m := roundDiv (num * Nat.pow 2 (-e).toNat) (den * Nat.pow 2 e.toNat)
    if m = Nat.pow 2 53 then ofParts negative (Nat.pow 2 52) (e + 1) else ofParts negative m e

/-- The value nearest to `m * 2 ^ e`. -/
def ofDyadic (negative : Bool) (m : Nat) (e : Int) : Binary64 :=
  ofRatio negative (m * Nat.pow 2 e.toNat) (Nat.pow 2 (-e).toNat)

/-- The value nearest to `m * 10 ^ e`. -/
def ofDecimal (negative : Bool) (m : Nat) (e : Int) : Binary64 :=
  ofRatio negative (m * Nat.pow 10 e.toNat) (Nat.pow 10 (-e).toNat)

/-- The value nearest to an integer. -/
def ofNat (n : Nat) : Binary64 := ofRatio false n 1

def isNegative : Binary64 → Bool
  | .nan => false
  | .infinite s => s
  | .finite s _ _ _ => s

def isFinite : Binary64 → Bool
  | .finite .. => true
  | _ => false

def isInfinite : Binary64 → Bool
  | .infinite _ => true
  | _ => false

/-- Zero of either sign. -/
def isZero : Binary64 → Bool
  | .finite _ m _ _ => m == 0
  | _ => false

/-- The value with the other sign. -/
def neg : Binary64 → Binary64
  | .nan => .nan
  | .infinite s => .infinite !s
  | .finite s m e h => .finite (!s) m e h

/-- Magnitude of a finite value as a numerator; zero for the others. -/
def numerator : Binary64 → Nat
  | .finite _ m e _ => m * Nat.pow 2 e.toNat
  | _ => 0

/-- Magnitude of a finite value as a denominator, a power of two. -/
def denominator : Binary64 → Nat
  | .finite _ _ e _ => Nat.pow 2 (-e).toNat
  | _ => 1

/-- A signed significand in units of `2 ^ unit`, for a `unit` not above the exponent. -/
def inUnits (negative : Bool) (m : Nat) (e unit : Int) : Int :=
  let n : Int := m * Nat.pow 2 (e - unit).toNat
  if negative then -n else n

/-- An exact zero sum is positive unless both terms are negative. -/
def add : Binary64 → Binary64 → Binary64
  | .nan, _ => .nan
  | _, .nan => .nan
  | .infinite s, .infinite t => if s = t then .infinite s else .nan
  | .infinite s, .finite .. => .infinite s
  | .finite .., .infinite t => .infinite t
  | .finite s m e _, .finite t n f _ =>
    let unit := min e f
    let sum := inUnits s m e unit + inUnits t n f unit
    if sum = 0 then .finite (s && t) 0 (-1074) canonical_zero
    else ofDyadic (decide (sum < 0)) sum.natAbs unit

def mul : Binary64 → Binary64 → Binary64
  | .nan, _ => .nan
  | _, .nan => .nan
  | .infinite s, .infinite t => .infinite (s != t)
  | .infinite s, .finite t n _ _ => if n = 0 then .nan else .infinite (s != t)
  | .finite s m _ _, .infinite t => if m = 0 then .nan else .infinite (s != t)
  | .finite s m e _, .finite t n f _ => ofDyadic (s != t) (m * n) (e + f)

/-- Division by a zero is infinite, and zero by zero is not a number. -/
def div : Binary64 → Binary64 → Binary64
  | .nan, _ => .nan
  | _, .nan => .nan
  | .infinite _, .infinite _ => .nan
  | .infinite s, .finite t _ _ _ => .infinite (s != t)
  | .finite s _ _ _, .infinite t => .finite (s != t) 0 (-1074) canonical_zero
  | .finite s m e _, .finite t n f _ =>
    if n = 0 then if m = 0 then .nan else .infinite (s != t)
    else
      let d := e - f
      ofRatio (s != t) (m * Nat.pow 2 d.toNat) (n * Nat.pow 2 (-d).toNat)

/-- A NaN is neither below nor above anything. The two zeros are equal in this order. -/
def lt : Binary64 → Binary64 → Bool
  | .nan, _ => false
  | _, .nan => false
  | .infinite s, .infinite t => s && !t
  | .infinite s, .finite .. => s
  | .finite .., .infinite t => !t
  | .finite s m e _, .finite t n f _ =>
    decide (inUnits s m e (min e f) < inUnits t n f (min e f))

def le : Binary64 → Binary64 → Bool
  | .nan, _ => false
  | _, .nan => false
  | .infinite s, .infinite t => s || !t
  | .infinite s, .finite .. => s
  | .finite .., .infinite t => !t
  | .finite s m e _, .finite t n f _ =>
    decide (inUnits s m e (min e f) ≤ inUnits t n f (min e f))

@[simp] theorem lt_nan (x : Binary64) : lt x .nan = false := by cases x <;> rfl

@[simp] theorem nan_le (x : Binary64) : le .nan x = false := by cases x <;> rfl

@[simp] theorem le_nan (x : Binary64) : le x .nan = false := by cases x <;> rfl

example : add (ofDecimal false 1 (-1)) (ofDecimal false 2 (-1)) =
    ofDecimal false 30000000000000004 (-17) := by decide

example : ofDecimal false 5 (-324) = .finite false 1 (-1074) (by decide) := by decide +kernel

example : ofDecimal true 18 307 = .infinite true := by decide +kernel

end Binary64

end PaymentDrill
