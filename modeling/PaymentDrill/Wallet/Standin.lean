import PaymentDrill.Directory
import PaymentDrill.Wallet.Process

/-!
# Stand-in wallet programs

A program that plays a wallet: it keeps every list of arguments that it is started
with. What a start prints and how it ends is laid down beforehand, by the number of
the command among those of its kind. It may interrupt the drill that started it in the
middle of a send, once or until the drill is gone. It is found as programs are, in a
directory along a search path.
-/
namespace PaymentDrill

structure Standin where
  /-- Outputs of the queries of balances; the last one repeats. -/
  balances : List (List UInt8)
  /-- Exits of the first queries. -/
  queryExits : List Exit := []
  /-- Exit of all other queries. -/
  balancesExit : Exit
  unlockOutput : List UInt8 := []
  unlockExit : Exit
  /-- Exits of the sends; the last one repeats. -/
  sendExits : List Exit
  /-- Outputs of the first sends. -/
  sendOutputs : List (List UInt8) := []
  /-- Whether all other sends print an identifier of their own. -/
  noisy : Bool
  /-- The send that comes with an interrupt. -/
  interruptAt : Option Nat
  /-- Whether that interrupt is repeated until the drill is gone. -/
  insistent : Bool
  deriving DecidableEq

namespace Standin

/-- The starts so far, in order, with the numbers of those that were queries and sends. -/
structure State where
  calls : List (List String)
  queries : Nat
  sends : Nat
  deriving DecidableEq

def State.start : State := ⟨[], 0, 0⟩

/-- How a query ends, by the number of those before it. -/
def queryExit (w : Standin) (before : Nat) : Exit := w.queryExits.getD before w.balancesExit

def identifier (n : Nat) : List UInt8 :=
  Text.Utf8.encode ("txid-".toList ++ natText n ++ ['\n'])

/-- What a send prints, by its number from one on. -/
def printed (w : Standin) (send : Nat) : List UInt8 :=
  w.sendOutputs.getD (send - 1) (if w.noisy then identifier send else [])

def interruptNotices (w : Standin) (send : Nat) : List Notice :=
  if w.interruptAt = some send then
    .interrupted :: if w.insistent then [.interruptedAgain] else []
  else []

/-- Runs the program with a list of arguments, of which the second is the command. -/
def answer (w : Standin) (arguments : List String) (s : State) : Completion × State :=
  let s := { s with calls := s.calls ++ [arguments] }
  match arguments[1]? with
  | some word =>
    if word = Command.getBalance.word then
      ({ output := nthOrLast w.balances s.queries [], exit := w.queryExit s.queries },
        { s with queries := s.queries + 1 })
    else if word = Command.send.word then
      let send := s.sends + 1
      let notices := w.interruptNotices send
      ({ output := w.printed send
         exit := nthOrLast w.sendExits s.sends (.status 0)
         notices
         interrupt := notices ≠ [] },
        { s with sends := send })
    else ({ output := w.unlockOutput, exit := w.unlockExit }, s)
  | none => ({ output := w.unlockOutput, exit := w.unlockExit }, s)

/-- The program in a directory, where it is the one file that can be started. -/
def host (w : Standin) (d : Directory) (searchPath : List (List UInt8)) : Host State :=
  fun program arguments s =>
    match d.program searchPath (Text.Utf8.encode program.toList) with
    | .error f => (.error f, s)
    | .ok () =>
      let (c, s) := w.answer arguments s
      (.ok c, s)

end Standin

/-- A program in a directory that always comes to the same end, and keeps its last arguments. -/
def Completion.host (c : Completion) (d : Directory) (searchPath : List (List UInt8)) :
    Host (Option (List String)) :=
  fun program arguments s =>
    match d.program searchPath (Text.Utf8.encode program.toList) with
    | .error f => (.error f, s)
    | .ok () => (.ok c, some arguments)

end PaymentDrill
