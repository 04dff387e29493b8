/-!
# Keystream

A reproducible source of 64-bit words: the ChaCha stream with 12 rounds under a
256-bit key, a block counter of 64 bits that starts at zero, and an empty nonce.
A stream is its key and the number of words taken from it. A short seed is
expanded into a key by a linear congruential generator with permuted output.
-/
namespace PaymentDrill

abbrev Block := Vector UInt32 16

namespace Block

def rotate (x : UInt32) (n : UInt32) : UInt32 := x <<< n ||| x >>> (32 - n)

/-- Mixes four words of a block. -/
def quarter (b : Block) (i j k l : Fin 16) : Block :=
  let x := b[i] + b[j]
  let w := rotate (b[l] ^^^ x) 16
  let z := b[k] + w
  let y := rotate (b[j] ^^^ z) 12
  let x := x + y
  let w := rotate (w ^^^ x) 8
  let z := z + w
  let y := rotate (y ^^^ z) 7
  (((b.set i x).set j y).set k z).set l w

/-- One round over the columns and one over the diagonals. -/
def doubleRound (b : Block) : Block :=
  let b := quarter b 0 4 8 12
  let b := quarter b 1 5 9 13
  let b := quarter b 2 6 10 14
  let b := quarter b 3 7 11 15
  let b := quarter b 0 5 10 15
  let b := quarter b 1 6 11 12
  let b := quarter b 2 7 8 13
  quarter b 3 4 9 14

/-- Twelve rounds, then the block that they started from is added. -/
def scramble (b : Block) : Block :=
  (Nat.repeat doubleRound 6 b).zipWith (· + ·) b

end Block

/-- A stream of 64-bit words at a position. -/
structure Keystream where
  key : Vector UInt32 8
  position : Nat
  deriving DecidableEq

namespace Keystream

/-- Number of words after which the block counter, and with it the stream, starts over. -/
def period : Nat := Nat.pow 2 67

/-- Constants, key, block counter and nonce. -/
def input (key : Vector UInt32 8) (counter : UInt64) : Block :=
  #v[0x61707865, 0x3320646E, 0x79622D32, 0x6B206574,
    key[0], key[1], key[2], key[3], key[4], key[5], key[6], key[7],
    counter.toUInt32, (counter >>> 32).toUInt32, 0, 0]

/-- The word at a position: two neighbouring words of a block, the low half first. -/
def word (key : Vector UInt32 8) (position : Nat) : UInt64 :=
  let block := (input key (UInt64.ofNat (position / 8))).scramble
  let pair := position % 8
  have h : pair < 8 := Nat.mod_lt _ (by decide)
  block[2 * pair].toUInt64 ||| block[2 * pair + 1].toUInt64 <<< 32

def next (s : Keystream) : UInt64 × Keystream :=
  (word s.key s.position, { s with position := s.position + 1 })

/-- The next state of the congruential generator. -/
def advance (state : UInt64) : UInt64 := state * 6364136223846793005 + 11634580027462260723

/-- Output of a state: folded to 32 bits and rotated to the right by its five leading bits. -/
def permuted (state : UInt64) : UInt32 :=
  let x := (((state >>> 18) ^^^ state) >>> 27).toUInt32
  let r := (state >>> 59).toUInt32
  x >>> r ||| x <<< ((32 - r) % 32)

/-- The state before the key's word at an index. -/
def seedState (seed : UInt64) (index : Nat) : UInt64 := Nat.repeat advance (index + 1) seed

def keyOfSeed (seed : UInt64) : Vector UInt32 8 :=
  Vector.ofFn fun i => permuted (seedState seed i)

/-- The stream that belongs to a seed, at its start. -/
def ofSeed (seed : UInt64) : Keystream := ⟨keyOfSeed seed, 0⟩

end Keystream

end PaymentDrill
