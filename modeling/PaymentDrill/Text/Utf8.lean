/-!
# UTF-8

Decoding of byte sequences. A leading byte says how many tail bytes follow and
which range the first of them must lie in; this rules out surrogates, code points
beyond the last one, and sequences longer than needed. A broken sequence ends in
front of the first byte that cannot continue it, and counts as one piece.
-/
namespace PaymentDrill.Text.Utf8

/-- What a leading byte asks for: the number of tails, the range of the first one, and its own
share of the code point. -/
structure Lead where
  tails : Nat
  low : UInt8
  high : UInt8
  bits : Nat

def lead? (b : UInt8) : Option Lead :=
  let n := b.toNat
  if n < 0x80 then some ⟨0, 0x80, 0xBF, n⟩
  else if n < 0xC2 then none
  else if n < 0xE0 then some ⟨1, 0x80, 0xBF, n - 0xC0⟩
  else if n = 0xE0 then some ⟨2, 0xA0, 0xBF, 0⟩
  else if n = 0xED then some ⟨2, 0x80, 0x9F, 13⟩
  else if n < 0xF0 then some ⟨2, 0x80, 0xBF, n - 0xE0⟩
  else if n = 0xF0 then some ⟨3, 0x90, 0xBF, 0⟩
  else if n < 0xF4 then some ⟨3, 0x80, 0xBF, n - 0xF0⟩
  else if n = 0xF4 then some ⟨3, 0x80, 0x8F, 4⟩
  else none

/-- Takes the tails that are asked for; the code point is there when all of them were. -/
def takeTails : Nat → UInt8 → UInt8 → Nat → List UInt8 → Option Nat × List UInt8
  | 0, _, _, code, rest => (some code, rest)
  | _ + 1, _, _, _, [] => (none, [])
  | tails + 1, low, high, code, b :: rest =>
    if low ≤ b ∧ b ≤ high then takeTails tails 0x80 0xBF (code * 64 + (b.toNat - 0x80)) rest
    else (none, b :: rest)

theorem takeTails_length (tails : Nat) (low high : UInt8) (code : Nat) (bs : List UInt8) :
    (takeTails tails low high code bs).2.length ≤ bs.length := by
  induction tails generalizing low high code bs with
  | zero => simp [takeTails]
  | succ tails ih =>
    cases bs with
    | nil => simp [takeTails]
    | cons b rest =>
      simp only [takeTails]
      split
      · exact Nat.le_trans (ih ..) (by simp)
      · simp

/-- The first piece, a character or a broken sequence, and what follows it. -/
def piece (b : UInt8) (rest : List UInt8) : Option Char × List UInt8 :=
  match lead? b with
  | none => (none, rest)
  | some l =>
    let (code, rest) := takeTails l.tails l.low l.high l.bits rest
    (code.map Char.ofNat, rest)

theorem piece_length (b : UInt8) (rest : List UInt8) : (piece b rest).2.length ≤ rest.length := by
  unfold piece
  split
  · simp
  · exact takeTails_length ..

/-- The characters and broken sequences of a byte sequence, in order. -/
def pieces : List UInt8 → List (Option Char)
  | [] => []
  | b :: rest => (piece b rest).1 :: pieces (piece b rest).2
termination_by bs => bs.length
decreasing_by exact Nat.lt_succ_of_le (piece_length b rest)

/-- All characters, when no sequence is broken. -/
def decode? (bs : List UInt8) : Option (List Char) := (pieces bs).mapM id

/-- Each broken sequence becomes one replacement character. -/
def decodeLossy (bs : List UInt8) : List Char := (pieces bs).map (·.getD '\uFFFD')

def encode (cs : List Char) : List UInt8 := cs.flatMap String.utf8EncodeChar

/-- Number of bytes that characters take. -/
def size : List Char → Nat
  | [] => 0
  | c :: cs => c.utf8Size + size cs

end PaymentDrill.Text.Utf8
