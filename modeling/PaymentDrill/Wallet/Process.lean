import PaymentDrill.Wallet

/-!
# Wallet programs

A wallet that is a program: every request starts it with a list of arguments, each
taken as it is. The leading arguments come first, then the word of the command, then
what the command needs. What the program prints is the answer to a query of
balances; it is dropped when the wallet is unlocked, and passed on when money is
sent.
-/
namespace PaymentDrill

/-- How a started program came to its end. -/
structure Completion where
  output : List UInt8
  exit : Exit
  notices : List Notice := []
  /-- Whether the drill has been told to stop meanwhile. -/
  interrupt : Bool := false

/-- The surroundings that can start programs with arguments. -/
abbrev Host (σ : Type) := String → List String → σ → Except SystemFault Completion × σ

structure WalletProgram where
  program : String
  leading : List String
  deriving DecidableEq

/-- The argument that selects the wallet's side of the program. -/
def WalletProgram.flag : String := "--wallet"

def WalletProgram.named (program : String) : WalletProgram := ⟨program, [WalletProgram.flag]⟩

namespace WalletProgram

def hasNul (s : String) : Bool := s.toList.contains '\x00'

/-- The arguments of a command. -/
def arguments (p : WalletProgram) (command : Command) (operands : List String) : List String :=
  p.leading ++ command.word :: operands

/-- Starts the program. An argument with a NUL in it cannot be passed on. -/
def start {σ : Type} (p : WalletProgram) (host : Host σ) (command : Command)
    (operands : List String) (s : σ) : Except Failure Completion × σ :=
  let words := p.arguments command operands
  if (p.program :: words).any hasNul then
    (.error (.notStarted p.program command .nulInArgument), s)
  else match host p.program words s with
    | (.error f, s) => (.error (.notStarted p.program command f), s)
    | (.ok c, s) => (.ok c, s)

/-- No timeout: the wallet stays unlocked. -/
def unlockOperands (password : String) : List String := [password, "0"]

def sendOperands (t : Transfer) : List String :=
  [t.account, t.address, String.ofList t.amount.toText, "0",
    String.ofList (natText t.minConfirmations.toNat)]

/-- A reply that is all failure. -/
def refused {σ α : Type} (e : Failure) (s : σ) : Reply σ α := { result := .error e, state := s }

/-- The balances that the output holds, whatever the exit. -/
def balances {σ : Type} (p : WalletProgram) (host : Host σ) (s : σ) : Reply σ Balances :=
  match p.start host .getBalance [] s with
  | (.error e, s) => refused e s
  | (.ok c, s) =>
    let text := Text.Utf8.decodeLossy c.output
    let exit := if c.exit.isSuccess then [] else [Notice.balanceExit c.exit]
    { result := (Balances.ofText text).mapError .balancesInvalid
      state := s
      notices := c.notices ++ exit ++ [.balanceOutput text]
      interrupt := c.interrupt }

def unlock {σ : Type} (p : WalletProgram) (host : Host σ) (password : String) (s : σ) :
    Reply σ Int32 :=
  match p.start host .unlock (unlockOperands password) s with
  | (.error e, s) => refused e s
  | (.ok c, s) =>
    { result := .ok c.exit.code
      state := s
      notices := c.notices ++ if c.exit.code = 0 then [] else [.unlockExit c.exit.code]
      interrupt := c.interrupt }

def send {σ : Type} (p : WalletProgram) (host : Host σ) (t : Transfer) (s : σ) : Reply σ Int32 :=
  match p.start host .send (sendOperands t) s with
  | (.error e, s) => refused e s
  | (.ok c, s) =>
    { result := .ok c.exit.code
      state := s
      notices := c.notices
      passed := c.output
      interrupt := c.interrupt }

/-- The wallet that a program is. -/
def wallet {σ : Type} (p : WalletProgram) (host : Host σ) : Wallet σ where
  balances := p.balances host
  unlock := p.unlock host
  send := p.send host

end WalletProgram

end PaymentDrill
