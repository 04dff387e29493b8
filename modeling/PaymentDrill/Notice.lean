import PaymentDrill.Failure

/-!
# Notices

What is noted in the log: how important it is, a fixed message, and named values.
Among them is how a program ends. One that ran to its end has a status of its own
choice; one that was ended by a signal has none, and counts as status -1.
-/
namespace PaymentDrill

inductive Exit where
  | status (status : UInt8)
  | signal (signal : Nat)
  deriving DecidableEq

namespace Exit

def code : Exit → Int32
  | .status s => Int32.ofNat s.toNat
  | .signal _ => -1

def isSuccess (e : Exit) : Bool := e == .status 0

/-- The signals' names, from number 1 on. -/
def signalNames : List String :=
  ["SIGHUP", "SIGINT", "SIGQUIT", "SIGILL", "SIGTRAP", "SIGABRT", "SIGBUS", "SIGFPE",
    "SIGKILL", "SIGUSR1", "SIGSEGV", "SIGUSR2", "SIGPIPE", "SIGALRM", "SIGTERM", "SIGSTKFLT",
    "SIGCHLD", "SIGCONT", "SIGSTOP", "SIGTSTP", "SIGTTIN", "SIGTTOU", "SIGURG", "SIGXCPU",
    "SIGXFSZ", "SIGVTALRM", "SIGPROF", "SIGWINCH", "SIGIO", "SIGPWR", "SIGSYS"]

def describe : Exit → String
  | .status s => "exit status: " ++ String.ofList (natText s.toNat)
  | .signal n =>
    let name := match signalNames[n - 1]? with
      | some name => if n = 0 then "" else " (" ++ name ++ ")"
      | none => ""
    "signal: " ++ String.ofList (natText n) ++ name

example : describe (.signal 9) = "signal: 9 (SIGKILL)" := by decide +kernel

end Exit

/-- Text of an exit code. -/
def codeText (c : Int32) : String :=
  String.ofList (withSign (c.toInt < 0) (natText c.toInt.natAbs))

inductive Level where
  | debug
  | info
  | warn
  deriving DecidableEq

inductive Notice where
  | pathDefaulted
  | walletDefaulted
  | configLoaded (path : List UInt8) (addresses : Nat) (account : String)
  | balance (account : String) (amount : Binary64)
  | accountNotListed (account : String)
  | balanceExit (exit : Exit)
  | balanceOutput (text : List Char)
  | unlockExit (code : Int32)
  | interrupted
  | interruptedAgain
  | sendNotRun (index : Nat) (failure : Failure)
  | sendFailed (index : Nat) (code : Int32)
  | stoppedAtFailure (index : Nat) (code : Int32)
  | balanceCheckFailed (failure : Failure)
  | stopped (sent : Nat)
  | finished (sent failed : Nat)
  deriving DecidableEq

namespace Notice

def level : Notice → Level
  | .pathDefaulted | .walletDefaulted | .balanceOutput _ | .sendFailed .. => .debug
  | .configLoaded .. | .balance .. | .interrupted | .stopped _ | .finished .. => .info
  | _ => .warn

def message : Notice → String
  | .pathDefaulted => "AUTOTX_CONFIG not set, defaulting to autotx.conf"
  | .walletDefaulted => "AUTOTX_WALLET_CLI not set, defaulting to hcashctl"
  | .configLoaded .. => "loaded config"
  | .balance .. => "spendable balance"
  | .accountNotListed _ => "account not listed in wallet balances"
  | .balanceExit _ => "getbalance exited with non-zero status"
  | .balanceOutput _ => "getbalance output"
  | .unlockExit _ => "walletpassphrase exited with non-zero status"
  | .interrupted => "interrupted, finishing the current transaction (Ctrl-C again to exit)"
  | .interruptedAgain => "interrupted again, exiting"
  | .sendNotRun .. => "sendfrom did not run"
  | .sendFailed .. => "sendfrom failed"
  | .stoppedAtFailure .. => "sendfrom failed, stopping"
  | .balanceCheckFailed _ => "balance check failed, stopping"
  | .stopped _ => "stopped by request"
  | .finished .. => "spam run finished"

def countText (n : Nat) : String := String.ofList (natText n)

/-- The named values, as text. -/
def fields : Notice → List (String × String)
  | .configLoaded path addresses account =>
    [("path", pathText path), ("addresses", countText addresses), ("account", account)]
  | .balance account amount =>
    [("account", account), ("balance", String.ofList amount.toText)]
  | .accountNotListed account => [("account", account)]
  | .balanceExit exit => [("status", exit.describe)]
  | .balanceOutput text => [("stdout", String.ofList text)]
  | .unlockExit code => [("code", codeText code)]
  | .sendNotRun index failure => [("index", countText index), ("err", failure.message)]
  | .sendFailed index code => [("index", countText index), ("exit_code", codeText code)]
  | .stoppedAtFailure index code => [("index", countText index), ("code", codeText code)]
  | .balanceCheckFailed failure => [("err", failure.message)]
  | .stopped sent => [("sent", countText sent)]
  | .finished sent failed => [("sent", countText sent), ("failed", countText failed)]
  | _ => []

end Notice

end PaymentDrill
