import PaymentDrill.Payment
import PaymentDrill.Wallet

/-!
# Traces

What happens in a drill, in order: the requests to the wallet, the settling of each
payment, and what is printed and noted. Calls, output and log are views of a trace.
-/
namespace PaymentDrill

inductive Event where
  | balances
  | unlock (password : String)
  | send (transfer : Transfer)
  /-- A payment has been tried and has come back with a code. -/
  | settled (payment : Payment) (code : Int32)
  | line (text : List Char)
  | passed (bytes : List UInt8)
  | noted (notice : Notice)
  deriving DecidableEq

abbrev Trace := List Event

namespace Event

/-- Whether the event is a request to the wallet or the settling of a payment. -/
def isCall : Event → Bool
  | .balances | .unlock _ | .send _ | .settled .. => true
  | _ => false

/-- What the event puts on the standard output. -/
def output : Event → List UInt8
  | .line text => Text.Utf8.encode (text ++ ['\n'])
  | .passed bytes => bytes
  | _ => []

def notice? : Event → Option Notice
  | .noted n => some n
  | _ => none

def transfer? : Event → Option Transfer
  | .send t => some t
  | _ => none

def settled? : Event → Option (Payment × Int32)
  | .settled p code => some (p, code)
  | _ => none

end Event

namespace Trace

def calls (t : Trace) : List Event := t.filter Event.isCall

def output (t : Trace) : List UInt8 := t.flatMap Event.output

def log (t : Trace) : List Notice := t.filterMap Event.notice?

def transfers (t : Trace) : List Transfer := t.filterMap Event.transfer?

def settlements (t : Trace) : List (Payment × Int32) := t.filterMap Event.settled?

@[simp] theorem calls_nil : calls [] = [] := rfl

theorem calls_cons (e : Event) (t : Trace) :
    calls (e :: t) = if e.isCall then e :: calls t else calls t := List.filter_cons

@[simp] theorem calls_append (a b : Trace) : calls (a ++ b) = calls a ++ calls b := by
  simp [calls]

@[simp] theorem output_append (a b : Trace) : output (a ++ b) = output a ++ output b := by
  simp [output]

@[simp] theorem transfers_append (a b : Trace) :
    transfers (a ++ b) = transfers a ++ transfers b := by simp [transfers]

@[simp] theorem settlements_append (a b : Trace) :
    settlements (a ++ b) = settlements a ++ settlements b := by simp [settlements]

/-- Only calls are transfers. -/
theorem filterMap_transfer?_calls (t : Trace) :
    (calls t).filterMap Event.transfer? = transfers t := by
  unfold calls transfers
  rw [List.filterMap_filter]
  congr
  funext e
  cases e <;> rfl

/-- Only calls are settlements. -/
theorem filterMap_settled?_calls (t : Trace) :
    (calls t).filterMap Event.settled? = settlements t := by
  unfold calls settlements
  rw [List.filterMap_filter]
  congr
  funext e
  cases e <;> rfl

end Trace

/-- What a wallet does beside answering, as events. -/
def Reply.events {σ α : Type} (r : Reply σ α) : Trace :=
  (if r.passed = [] then [] else [.passed r.passed]) ++ r.notices.map .noted

@[simp] theorem Reply.calls_events {σ α : Type} (r : Reply σ α) : Trace.calls r.events = [] := by
  unfold events Trace.calls
  split <;> simp [Event.isCall]

namespace Payment

/-- The line that is printed for a payment. -/
def line (p : Payment) : List Char :=
  '[' :: (natText p.index ++ "] send to ".toList ++ p.address.toList ++ " amount: ".toList ++
    p.amount.toText)

/-- How a payment is reported once it has been tried. -/
def report (p : Payment) (code : Int32) : Trace :=
  .settled p code :: .line p.line ::
    if code = 0 then [] else [.noted (.sendFailed p.index code)]

end Payment

end PaymentDrill
