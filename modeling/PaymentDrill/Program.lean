import PaymentDrill.CommandLine.Invocation
import PaymentDrill.Wallet.Process

/-!
# The program

From the words of a command line to an exit code: the command line is read, then the
configuration, and then a session is held with a wallet program. A second interrupt
ends the program on the spot, with an exit code of its own.
-/
namespace PaymentDrill.Program

open CommandLine

/-- What the program finds around it. -/
structure Surroundings (σ : Type) where
  words : List (List UInt8)
  environment : Environment
  content : List UInt8 → Except SystemFault (List UInt8)
  host : Host σ
  /-- The stream that is drawn from when no seed is given. -/
  fresh : Keystream

inductive Verdict where
  | finished (tally : Drill.Tally)
  | failed (failure : Failure)
  /-- The command line did not ask for a drill. -/
  | halted (halt : Halt)
  /-- A second interrupt has come. -/
  | aborted

def Verdict.exitCode : Verdict → UInt8
  | .finished _ => 0
  | .failed _ => 1
  | .halted (.complaint _) => 2
  | .halted _ => 0
  | .aborted => 130

structure Outcome (σ : Type) where
  verdict : Verdict
  /-- What was written in front of the drill. -/
  header : List UInt8
  trace : Trace
  state : σ

/-- The trace up to the notice of a second interrupt. -/
def upToAbort : Trace → Trace
  | [] => []
  | e :: t => if e = .noted .interruptedAgain then [e] else e :: upToAbort t

def isAborted (t : Trace) : Bool := t.contains (.noted .interruptedAgain)

/-- What is left of a session; a second interrupt cuts it short. -/
def conclude {σ : Type} (o : Session.Outcome σ) : Outcome σ :=
  if isAborted o.trace then ⟨.aborted, o.written, upToAbort o.trace, o.state.wallet⟩
  else match o.result with
    | .error f => ⟨.failed f, o.written, o.trace, o.state.wallet⟩
    | .ok tally => ⟨.finished tally, o.written, o.trace, o.state.wallet⟩

/-- Holds a session as an invocation and a configuration say. -/
def session {σ : Type} (a : Surroundings σ) (i : Invocation) (config : Config) (s : σ) :
    Except Stuck (Outcome σ) :=
  let name := i.walletProgram a.environment
  let wallet := (WalletProgram.named name.1).wallet a.host
  match Session.run config i.order wallet .unbounded ⟨i.stream a.fresh, s, false⟩ with
  | .error e => .error e
  | .ok o => .ok (conclude { o with trace := name.2.map .noted ++ o.trace })

/-- Where the configuration will be looked for, if the command line asks for a drill. -/
def configPath? (words : List (List UInt8)) (e : Environment) : Option (List UInt8) :=
  match CommandLine.read words with
  | .error _ => none
  | .ok i => some (i.configPath e).1

def run {σ : Type} (a : Surroundings σ) (s : σ) : Except Stuck (Outcome σ) :=
  match CommandLine.read a.words with
  | .error h => .ok ⟨.halted h, [], [], s⟩
  | .ok i =>
    let path := i.configPath a.environment
    let t : Trace := path.2.map .noted
    match Config.ofFile path.1 (a.content path.1) with
    | .error f => .ok ⟨.failed f, [], t, s⟩
    | .ok config =>
      let loaded := Notice.configLoaded path.1 config.addresses.length config.account
      match session a i config s with
      | .error e => .error e
      | .ok o => .ok { o with trace := t ++ .noted loaded :: o.trace }

namespace Outcome

/-- What the program has put on the standard output before its summary. -/
def output {σ : Type} (o : Outcome σ) : List UInt8 :=
  match o.verdict with
  | .halted .help => Text.Utf8.encode helpText.toList
  | .halted .version => Text.Utf8.encode versionText.toList
  | _ => o.header ++ o.trace.output

/-- The summary, which only a finished drill has. -/
def summary? {σ : Type} (o : Outcome σ) (elapsed : Elapsed) : Option Summary :=
  match o.verdict with
  | .finished tally => some ⟨tally, elapsed⟩
  | _ => none

/-- How the summary is reported, if there is one. -/
def closing {σ : Type} (o : Outcome σ) (elapsed : Elapsed) : Trace :=
  match o.summary? elapsed with
  | some s => s.report
  | none => []

end Outcome

end PaymentDrill.Program
