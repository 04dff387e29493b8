import PaymentDrill.Balances
import PaymentDrill.Notice

/-!
# Wallets

A wallet answers three requests: what its accounts can spend, to be unlocked, and
to send money. It is a machine with a state of its own, and what it does beside
answering is part of the reply: notices, text on the standard output, and an
interrupt of the drill that arrives before the request is done.

The answers of a scripted wallet are laid down beforehand: the n-th request of a kind
gets the n-th answer for that kind, and the last answer is repeated. A script may also
say at which requests the drill is interrupted; an interrupt reaches the drill even if
the request that it comes with fails.
-/
namespace PaymentDrill

/-- A request to send money. -/
structure Transfer where
  account : String
  address : String
  amount : Binary64
  minConfirmations : UInt32
  deriving DecidableEq

structure Reply (σ α : Type) where
  result : Except Failure α
  state : σ
  notices : List Notice := []
  /-- What the wallet has put on the standard output itself. -/
  passed : List UInt8 := []
  /-- Whether the drill has been told to stop meanwhile. -/
  interrupt : Bool := false

structure Wallet (σ : Type) where
  balances : σ → Reply σ Balances
  unlock : String → σ → Reply σ Int32
  send : Transfer → σ → Reply σ Int32

/-- Whether the first balance listed for the account covers the amount. -/
def Balances.covers (b : Balances) (account : String) (amount : Binary64) : Bool :=
  match b.spendable? account with
  | some spendable => amount.le spendable
  | none => false

/-- The entry at a position of a list, the last one beyond its end, or the default if it has
none. -/
def nthOrLast {α : Type} (as : List α) (n : Nat) (default : α) : α :=
  match as[n]? with
  | some a => a
  | none => as.getLastD default

namespace Script

inductive BalanceAnswer where
  | entries (balances : Balances)
  | text (text : List Char)
  | notStarted (fault : String)
  deriving DecidableEq

inductive CodeAnswer where
  | code (code : Int32)
  | notStarted (fault : String)
  deriving DecidableEq

/-- The program that is named when a scripted answer is that it cannot be started. -/
def program : String := "hcashctl"

/-- Text that is no report of balances is a failure. -/
def readBalances (text : List Char) : Except Failure Balances :=
  (Balances.ofText text).mapError .balancesInvalid

def BalanceAnswer.result : BalanceAnswer → Except Failure Balances
  | .entries b => .ok b
  | .text t => readBalances t
  | .notStarted fault => .error (.notStarted program .getBalance (.other fault))

def CodeAnswer.result (command : Command) : CodeAnswer → Except Failure Int32
  | .code c => .ok c
  | .notStarted fault => .error (.notStarted program command (.other fault))

/-- How many balances have been asked for and how many payments sent. -/
structure Counters where
  queries : Nat
  sends : Nat
  deriving DecidableEq

def Counters.zero : Counters := ⟨0, 0⟩

end Script

structure Script where
  balances : List Script.BalanceAnswer
  sends : List Script.CodeAnswer
  unlock : Script.CodeAnswer
  /-- Queries that come with an interrupt, by their number from one on. -/
  interruptsAtQuery : List Nat
  /-- Sends that come with an interrupt, by their number from one on. -/
  interruptsAtSend : List Nat
  /-- The send at which the user interrupts the drill, which is noted. -/
  userAtSend : Option Nat
  deriving DecidableEq

namespace Script

def answerBalances (s : Script) (c : Counters) : Reply Counters Balances :=
  { result := (nthOrLast s.balances c.queries (.entries [])).result
    state := { c with queries := c.queries + 1 }
    interrupt := s.interruptsAtQuery.contains (c.queries + 1) }

def answerSend (s : Script) (c : Counters) : Reply Counters Int32 :=
  let byUser := s.userAtSend == some (c.sends + 1)
  { result := (nthOrLast s.sends c.sends (.code 0)).result .send
    state := { c with sends := c.sends + 1 }
    notices := if byUser then [.interrupted] else []
    interrupt := byUser || s.interruptsAtSend.contains (c.sends + 1) }

/-- The wallet that follows the script. -/
def wallet (s : Script) : Wallet Counters where
  balances := s.answerBalances
  unlock := fun _ c => { result := s.unlock.result .unlock, state := c }
  send := fun _ c => s.answerSend c

end Script

end PaymentDrill
