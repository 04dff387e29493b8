import PaymentDrill.Config
import PaymentDrill.Trace

/-!
# Drills

A drill sends random payments one after the other. Before each payment it stops if
the limit is reached or the stop flag is up; then the payment is chosen, the balance
is checked if the plan asks for it, and the payment is sent. A payment that the
wallet cannot even start counts as sent, with code -1. What the wallet answers never
changes which payment comes next.

A plan says what a drill pays, and what makes it stop early. The ceiling of the random
amounts is the configured one, if that is positive, and else a thousandth of the
balance.
-/
namespace PaymentDrill

structure Plan where
  account : String
  addresses : List String
  ceiling : Binary64
  minConfirmations : UInt32
  /-- A send with another code than zero is the last one. -/
  stopOnFailure : Bool := false
  /-- Every send is preceded by a query of the balance. -/
  checkBalance : Bool := false
  deriving DecidableEq

namespace Plan

/-- The configured ceiling, or the share of the balance that stands in for it. -/
def ceilingOf (config : Config) (balance : Option Binary64) : Except Failure Binary64 :=
  if Binary64.zero.lt config.maxAmount then .ok config.maxAmount
  else match balance with
    | some b => .ok (b.div (Binary64.ofNat 1000))
    | none => .error (.accountNotListed config.account)

def ofConfig (config : Config) (balance : Option Binary64)
    (stopOnFailure checkBalance : Bool) : Except Failure Plan :=
  (ceilingOf config balance).map fun ceiling =>
    { account := config.account
      addresses := config.addresses
      ceiling
      minConfirmations := config.minConfirmations
      stopOnFailure
      checkBalance }

end Plan

/-- How many payments a drill sends at most. -/
inductive Limit where
  | count (n : Nat)
  | unbounded
  deriving DecidableEq

/-- A count of zero sets no limit. -/
def Limit.ofCount (n : UInt64) : Limit :=
  if n = 0 then .unbounded else .count n.toNat

/-- The flag after an interrupt, and whether it was up already. -/
def interrupt (flag : Bool) : Bool × Bool := (true, flag)

/-- A plan with somewhere to send money to. -/
structure Drill where
  plan : Plan
  addresses_ne_nil : plan.addresses ≠ []
  /-- Whether the drill looks at the stop flag of its surroundings. -/
  heedsStop : Bool := true

namespace Drill

/-- A plan can be carried out when it names an address. -/
def ofPlan (plan : Plan) (heedsStop : Bool) : Except Failure Drill :=
  if h : plan.addresses ≠ [] then .ok ⟨plan, h, heedsStop⟩ else .error .noAddresses

/-- What a drill changes: the stream that it draws from, the wallet, and the stop flag. -/
structure State (σ : Type) where
  stream : Keystream
  wallet : σ
  stop : Bool

/-- The condition that ended a drill. -/
inductive Ending where
  | limit
  | stop
  | failure
  | short
  | unknown
  deriving DecidableEq

/-- How many payments were tried, and how many of them had another code than zero. -/
structure Tally where
  sent : Nat
  failed : Nat
  deriving DecidableEq

namespace Tally

def zero : Tally := ⟨0, 0⟩

/-- One payment more, with its code. -/
def add (t : Tally) (code : Int32) : Tally :=
  ⟨t.sent + 1, if code = 0 then t.failed else t.failed + 1⟩

end Tally

structure Run (σ : Type) where
  tally : Tally
  ending : Ending
  state : State σ
  trace : Trace

/-- A request to the wallet, with what it does to the state and the trace. -/
def ask {σ α : Type} (request : Event) (reply : σ → Reply σ α) (s : State σ) :
    Except Failure α × State σ × Trace :=
  let r := reply s.wallet
  (r.result, { s with wallet := r.state, stop := s.stop || r.interrupt }, request :: r.events)

def transfer (d : Drill) (p : Payment) : Transfer :=
  ⟨d.plan.account, p.address, p.amount, d.plan.minConfirmations⟩

/-- Sends a payment and reports it. -/
def send {σ : Type} (d : Drill) (w : Wallet σ) (p : Payment) (s : State σ) :
    Int32 × State σ × Trace :=
  match ask (.send (d.transfer p)) (w.send (d.transfer p)) s with
  | (.ok code, s, t) => (code, s, t ++ p.report code)
  | (.error e, s, t) => (-1, s, t ++ .noted (.sendNotRun p.index e) :: p.report (-1))

/-- What is printed when the balance does not cover a payment. -/
def noMoney : List Char := "No spendable money in your wallet.".toList

/-- The line of a payment begins with a bracket. -/
theorem line_ne_noMoney (p : Payment) : p.line ≠ noMoney := by
  intro h
  have hhead := congrArg List.head? h
  cases hhead

/-- Whether the wallet covers a payment, when the plan asks for that. -/
def check {σ : Type} (d : Drill) (w : Wallet σ) (p : Payment) (s : State σ) :
    Option Ending × State σ × Trace :=
  if d.plan.checkBalance then
    match ask .balances w.balances s with
    | (.ok b, s, t) =>
      if b.covers d.plan.account p.amount then (none, s, t)
      else (some .short, s, t ++ [.line noMoney])
    | (.error e, s, t) => (some .unknown, s, t ++ [.noted (.balanceCheckFailed e)])
  else (none, s, [])

/-- A checked and sent payment: its code, or why it was not sent. -/
def round {σ : Type} (d : Drill) (w : Wallet σ) (p : Payment) (s : State σ) :
    Except Ending Int32 × State σ × Trace :=
  match d.check w p s with
  | (some ending, s, t) => (.error ending, s, t)
  | (none, s, t) =>
    let (code, s, u) := d.send w p s
    (.ok code, s, t ++ u)

/-- The payments from an index on, as many as are left until the limit. -/
def loop {σ : Type} (d : Drill) (w : Wallet σ) : Nat → Nat → State σ → Except Stuck (Run σ)
  | 0, _, s => .ok ⟨.zero, .limit, s, []⟩
  | left + 1, index, s =>
    if d.heedsStop && s.stop then .ok ⟨.zero, .stop, s, []⟩
    else match Payment.choose d.plan.addresses d.plan.ceiling index s.stream with
      | .error e => .error e
      | .ok (p, stream) =>
        match d.round w p { s with stream } with
        | (.error ending, s, t) => .ok ⟨.zero, ending, s, t⟩
        | (.ok code, s, t) =>
          if code ≠ 0 ∧ d.plan.stopOnFailure then
            .ok ⟨Tally.zero.add code, .failure, s, t ++ [.noted (.stoppedAtFailure index code)]⟩
          else match loop d w left (index + 1) s with
            | .error e => .error e
            | .ok r => .ok { r with tally := r.tally.add code, trace := t ++ r.trace }

/-- No drill gets as far as this many payments. -/
def horizon : Nat := Nat.pow 2 64

/-- The payments up to a limit. Without a limit, something else has to end the drill. -/
def payments {σ : Type} (d : Drill) (w : Wallet σ) (limit : Limit) (s : State σ) :
    Except Stuck (Run σ) :=
  match limit with
  | .count n => d.loop w n 0 s
  | .unbounded =>
    match d.loop w horizon 0 s with
    | .error e => .error e
    | .ok r => if r.ending = .limit then .error .endless else .ok r

/-- The payments up to a limit, and a notice if the stop flag is up in the end. -/
def run {σ : Type} (d : Drill) (w : Wallet σ) (limit : Limit) (s : State σ) :
    Except Stuck (Run σ) :=
  match d.payments w limit s with
  | .error e => .error e
  | .ok r =>
    .ok (if d.heedsStop && r.state.stop then
      { r with trace := r.trace ++ [.noted (.stopped r.tally.sent)] } else r)

end Drill

end PaymentDrill
