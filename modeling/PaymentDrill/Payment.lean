import PaymentDrill.Binary64
import PaymentDrill.Keystream

/-!
# Random payments

A payment goes to a random position of an address list, with a random amount below
a ceiling on top of a fixed least amount. Every choice takes words from a keystream
until one is acceptable. An index is the high half of the product of a word and the
number of indices; a word is refused where that would favour some indices. An
amount is the share of the ceiling that the 52 leading bits of a word stand for; it
is refused where rounding brings it up to the ceiling.
-/
namespace PaymentDrill

structure Payment where
  index : Nat
  address : String
  amount : Binary64
  deriving DecidableEq

/-- Why no payment can be chosen. -/
inductive Stuck where
  /-- There is no random share of an infinite ceiling. -/
  | infiniteCeiling
  /-- No word of the stream is acceptable, or a drill without limit is never told to stop. -/
  | endless
  deriving DecidableEq

namespace Payment

/-- The first acceptable word among a number of words of the stream. -/
def draw {α : Type} (accept : UInt64 → Option α) : Nat → Keystream → Option (α × Keystream)
  | 0, _ => none
  | tries + 1, s =>
    match accept s.next.1 with
    | some a => some (a, s.next.2)
    | none => draw accept tries s.next.2

/-- Products whose low half is below this bound are accepted: as many for every index. -/
def acceptance (n : Nat) : Nat := n * Nat.pow 2 (63 - Nat.log2 n)

/-- The index that a word stands for, if the word is acceptable. -/
def index? (n : Nat) (w : UInt64) : Option (Fin n) :=
  if h : w.toNat * n % Nat.pow 2 64 < acceptance n then
    some ⟨w.toNat * n / Nat.pow 2 64, by
      have hn : 0 < n := Nat.pos_of_ne_zero fun hn => by simp [acceptance, hn] at h
      exact Nat.div_lt_of_lt_mul (Nat.mul_lt_mul_of_pos_right w.toNat_lt hn)⟩
  else none

/-- The share of the ceiling that a word stands for. -/
def share (ceiling : Binary64) (w : UInt64) : Binary64 :=
  (Binary64.ofDyadic false (w.toNat / Nat.pow 2 12) (-52)).mul ceiling

/-- The share that a word stands for, if it is below the ceiling. -/
def share? (ceiling : Binary64) (w : UInt64) : Option Binary64 :=
  if (share ceiling w).lt ceiling then some (share ceiling w) else none

/-- The amount that every payment has at least, one tenth. -/
def leastAmount : Binary64 := Binary64.ofDecimal false 1 (-1)

/-- A random position of the address list. -/
def drawAddress (addresses : List String) (s : Keystream) : Except Stuck (String × Keystream) :=
  match draw (index? addresses.length) Keystream.period s with
  | some (i, s) => .ok (addresses.get i, s)
  | none => .error .endless

/-- A random amount below the ceiling; zero, without a draw, when no amount is positive and below
it. -/
def drawShare (ceiling : Binary64) (s : Keystream) : Except Stuck (Binary64 × Keystream) :=
  if Binary64.zero.lt ceiling then
    if ceiling.isInfinite then .error .infiniteCeiling
    else match draw (share? ceiling) Keystream.period s with
      | some r => .ok r
      | none => .error .endless
  else .ok (Binary64.zero, s)

/-- The payment of an index: first its address is drawn, then its amount. -/
def choose (addresses : List String) (ceiling : Binary64) (index : Nat) (s : Keystream) :
    Except Stuck (Payment × Keystream) :=
  match drawAddress addresses s with
  | .error e => .error e
  | .ok (address, s) =>
    match drawShare ceiling s with
    | .error e => .error e
    | .ok (r, s) => .ok (⟨index, address, r.add leastAmount⟩, s)

end Payment

end PaymentDrill
