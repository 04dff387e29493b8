import PaymentDrill.Drill

/-!
# Sessions

A session asks for the balance, makes a plan, unlocks the wallet, writes a header,
and only then starts the drill. Each of these steps can fail, and the first failure
ends the session before any money is sent.

A summary closes a session: how long the drill took and how many payments it tried
per second. The seconds are the whole ones plus the nanoseconds over a billion, each
step rounded once.
-/
namespace PaymentDrill

/-- What a session is asked to do, beside what the configuration says. -/
structure Order where
  count : UInt64
  stopOnFailure : Bool
  checkBalance : Bool
  deriving DecidableEq

/-- How many bytes a writer takes. -/
inductive Capacity where
  | bytes (n : Nat)
  | unbounded
  deriving DecidableEq

/-- The bytes that a writer takes of a text, and whether it takes all of them. -/
def Capacity.write (c : Capacity) (text : List UInt8) : List UInt8 × Bool :=
  match c with
  | .bytes n => (text.take n, decide (text.length ≤ n))
  | .unbounded => (text, true)

namespace Session

/-- What a session leaves behind; the stream is left where the last payment was chosen. -/
structure Outcome (σ : Type) where
  result : Except Failure Drill.Tally
  written : List UInt8
  state : Drill.State σ
  trace : Trace

/-- The lines in front of a drill. -/
def header (count : UInt64) : List UInt8 :=
  Text.Utf8.encode ("unlocked\nTx count: ".toList ++ natText count.toNat ++ ['\n'])

/-- What is noted about the balance of the account. -/
def balanceNotice (account : String) : Option Binary64 → Notice
  | some amount => .balance account amount
  | none => .accountNotListed account

/-- The drill that a configuration, a balance and an order lead to. -/
def prepare (config : Config) (order : Order) (balance : Option Binary64) : Except Failure Drill :=
  match Plan.ofConfig config balance order.stopOnFailure order.checkBalance with
  | .error e => .error e
  | .ok plan => Drill.ofPlan plan true

def run {σ : Type} (config : Config) (order : Order) (w : Wallet σ) (capacity : Capacity)
    (s : Drill.State σ) : Except Stuck (Outcome σ) :=
  match Drill.ask .balances w.balances s with
  | (.error e, s, t) => .ok ⟨.error e, [], s, t⟩
  | (.ok b, s, t) =>
    let balance := b.spendable? config.account
    let t := t ++ [.noted (balanceNotice config.account balance)]
    match prepare config order balance with
    | .error e => .ok ⟨.error e, [], s, t⟩
    | .ok drill =>
      match Drill.ask (.unlock config.password) (w.unlock config.password) s with
      | (.error e, s, u) => .ok ⟨.error e, [], s, t ++ u⟩
      | (.ok _, s, u) =>
        match capacity.write (header order.count) with
        | (written, false) => .ok ⟨.error (.notWritten .notAllWritten), written, s, t ++ u⟩
        | (written, true) =>
          match drill.run w (Limit.ofCount order.count) s with
          | .error e => .error e
          | .ok r => .ok ⟨.ok r.tally, written, r.state, t ++ u ++ r.trace⟩

end Session

/-- A span of time. -/
structure Elapsed where
  seconds : Nat
  nanoseconds : Nat
  deriving DecidableEq

def Elapsed.toBinary64 (t : Elapsed) : Binary64 :=
  (Binary64.ofNat t.seconds).add ((Binary64.ofNat t.nanoseconds).div (Binary64.ofNat 1000000000))

structure Summary where
  tally : Drill.Tally
  elapsed : Elapsed
  deriving DecidableEq

namespace Summary

/-- Payments per second. -/
def rate (s : Summary) : Binary64 := (Binary64.ofNat s.tally.sent).div s.elapsed.toBinary64

def elapsedLine (s : Summary) : List Char :=
  "Time elapsed ".toList ++ s.elapsed.toBinary64.toFixedText 2 ++ ['s']

def rateLine (s : Summary) : List Char :=
  "Send ".toList ++ s.rate.toFixedText 2 ++ " tx per second".toList

def lines (s : Summary) : List (List Char) := [s.elapsedLine, s.rateLine]

/-- How a summary is reported: a notice, then its lines. -/
def report (s : Summary) : Trace :=
  .noted (.finished s.tally.sent s.tally.failed) :: s.lines.map .line

end Summary

end PaymentDrill
