import PaymentDrill.Json.Lexeme

/-!
# Numbers

A number without fraction and exponent stays an integer while it fits 64 bits.
Every other number is converted from its leading digits and a power of ten with
one binary64 operation, so the result can be off by a rounding; very small powers
take several divisions. A number too large for binary64 is refused.
-/
namespace PaymentDrill.Json

inductive Number where
  | integer (n : Int)
  | float (x : Binary64)
  deriving DecidableEq

namespace Number

def found : Number → Found
  | .integer n => .integer n
  | .float x => .float x

def toBinary64 : Number → Binary64
  | .integer n => Binary64.ofRatio (n < 0) n.natAbs 1
  | .float x => x

end Number

def digitValue (c : Char) : Nat := c.toNat - '0'.toNat

def startsWithDigit : List Char → Bool
  | c :: _ => c.isDigit
  | [] => false

/-- Appends digits to a significand while it fits 64 bits, and counts them. -/
def takeDigits : Nat → Nat → List Char → Nat × Nat × List Char
  | m, n, [] => (m, n, [])
  | m, n, c :: s =>
    if c.isDigit ∧ m * 10 + digitValue c < Nat.pow 2 64 then
      takeDigits (m * 10 + digitValue c) (n + 1) s
    else (m, n, c :: s)

def powerOfTen (n : Nat) : Binary64 := Binary64.ofDecimal false 1 n

/-- Division by a power of ten, in steps of at most `10 ^ 308`. -/
def divideDown : Nat → Binary64 → Nat → Binary64
  | 0, x, n => x.div (powerOfTen n)
  | steps + 1, x, n =>
    if n ≤ 308 then x.div (powerOfTen n)
    else if x.isZero then x
    else divideDown steps (x.div (powerOfTen 308)) (n - 308)

/-- A significand and a power of ten as a value; none when it is too large. -/
def scale? (m : Nat) (e : Int) : Option Binary64 :=
  let x := Binary64.ofNat m
  if e < 0 then some (divideDown e.natAbs x e.natAbs)
  else if 308 < e then if x.isZero then some x else none
  else
    let y := x.mul (powerOfTen e.toNat)
    if y.isInfinite then none else some y

def finish (negative : Bool) (m : Nat) (e : Int) (s : List Char) :
    Except Fault (Number × List Char) :=
  match scale? m e with
  | none => .error (.before s .numberOutOfRange)
  | some x => .ok (.float (if negative then x.neg else x), s)

/-- Further digits of an exponent that fits 31 bits; none when one more would not fit. -/
def takeExponent : Nat → List Char → Option Nat × List Char
  | n, [] => (some n, [])
  | n, c :: s =>
    if c.isDigit then
      if n * 10 + digitValue c < Nat.pow 2 31 then takeExponent (n * 10 + digitValue c) s
      else (none, s)
    else (some n, c :: s)

/-- The exponents are kept within 32 bits. -/
def clampExponent (e : Int) : Int := max (-2147483648) (min e 2147483647)

/-- The part behind the exponent mark. An exponent beyond 31 bits makes the number zero or refuses
it. -/
def exponentPart (negative : Bool) (m : Nat) (e : Int) (s : List Char) :
    Except Fault (Number × List Char) :=
  let (down, s) := match s with
    | '+' :: r => (false, r)
    | '-' :: r => (true, r)
    | r => (false, r)
  match s with
  | [] => .error (.before [] .endInValue)
  | c :: r =>
    if ¬ c.isDigit then .error (.on (c :: r) .invalidNumber)
    else match takeExponent (digitValue c) r with
      | (some n, r) => finish negative m (clampExponent (if down then e - n else e + n)) r
      | (none, r) =>
        if m ≠ 0 ∧ ¬ down then .error (.before r .numberOutOfRange)
        else finish negative 0 0 (r.dropWhile Char.isDigit)

/-- The end of a number that is not an integer any more. -/
def exponentOrEnd (negative : Bool) (m : Nat) (e : Int) (s : List Char) :
    Except Fault (Number × List Char) :=
  match s with
  | 'e' :: r => exponentPart negative m e r
  | 'E' :: r => exponentPart negative m e r
  | r => finish negative m e r

/-- The part behind the point: at least one digit, of which those that fit count. -/
def fractionPart (negative : Bool) (m : Nat) (e : Int) (s : List Char) :
    Except Fault (Number × List Char) :=
  let (m, n, r) := takeDigits m 0 s
  if startsWithDigit r then exponentOrEnd negative m (e - n) (r.dropWhile Char.isDigit)
  else if n = 0 then
    match r with
    | [] => .error (.before [] .endInValue)
    | r => .error (.on r .invalidNumber)
  else exponentOrEnd negative m (e - n) r

/-- What follows the digits of an integer that fits. -/
def afterInteger (negative : Bool) (m : Nat) (s : List Char) :
    Except Fault (Number × List Char) :=
  match s with
  | '.' :: r => fractionPart negative m 0 r
  | 'e' :: r => exponentPart negative m 0 r
  | 'E' :: r => exponentPart negative m 0 r
  | r =>
    if ¬ negative then .ok (.integer m, r)
    else if m = 0 ∨ Nat.pow 2 63 < m then .ok (.float (Binary64.ofNat m).neg, r)
    else .ok (.integer (-m), r)

/-- A number behind its sign. Digits of the integer that do not fit count as powers of ten. -/
def readNumber (negative : Bool) (s : List Char) : Except Fault (Number × List Char) :=
  match s with
  | [] => .error (.before [] .endInValue)
  | c :: r =>
    if c = '0' then
      if startsWithDigit r then .error (.on r .invalidNumber) else afterInteger negative 0 r
    else if ¬ c.isDigit then .error (.on (c :: r) .invalidNumber)
    else
      let (m, _, r) := takeDigits (digitValue c) 0 r
      if startsWithDigit r then
        let e := (r.takeWhile Char.isDigit).length
        match r.dropWhile Char.isDigit with
        | '.' :: r => fractionPart negative m e r
        | r => exponentOrEnd negative m e r
      else afterInteger negative m r

def skipExponent (s : List Char) : Except Fault (List Char) :=
  let s := match s with
    | '+' :: r => r
    | '-' :: r => r
    | r => r
  if startsWithDigit s then .ok (s.dropWhile Char.isDigit) else .error (.on s .invalidNumber)

def skipFraction (s : List Char) : Except Fault (List Char) :=
  if ¬ startsWithDigit s then .error (.on s .invalidNumber)
  else match s.dropWhile Char.isDigit with
    | 'e' :: r => skipExponent r
    | 'E' :: r => skipExponent r
    | r => .ok r

/-- Passes over a number of any size behind its sign. -/
def skipNumber (s : List Char) : Except Fault (List Char) :=
  if ¬ startsWithDigit s then .error (.on s .invalidNumber)
  else
    let rest := match s with
      | '0' :: r => r
      | r => r.dropWhile Char.isDigit
    match rest with
    | '.' :: r => skipFraction r
    | 'e' :: r => skipExponent r
    | 'E' :: r => skipExponent r
    | r => if startsWithDigit r then .error (.on r .invalidNumber) else .ok r

end PaymentDrill.Json
