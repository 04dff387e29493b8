import PaymentDrill.Json.Fault

/-!
# Failures

What can end a drill or keep it from starting, and how it is said.
-/
namespace PaymentDrill

/-- What a file or a program can be refused for. -/
inductive SystemFault where
  | notFound
  | denied
  | notFolder
  | isFolder
  | nameTooLong
  | notText
  | nulInPath
  | nulInArgument
  | notAllWritten
  /-- A fault known by its text alone. -/
  | other (text : String)
  deriving DecidableEq

def SystemFault.message : SystemFault → String
  | .notFound => "No such file or directory (os error 2)"
  | .denied => "Permission denied (os error 13)"
  | .notFolder => "Not a directory (os error 20)"
  | .isFolder => "Is a directory (os error 21)"
  | .nameTooLong => "File name too long (os error 36)"
  | .notText => "stream did not contain valid UTF-8"
  | .nulInPath => "file name contained an unexpected NUL byte"
  | .nulInArgument => "nul byte found in provided data"
  | .notAllWritten => "failed to write whole buffer"
  | .other text => text

/-- What a wallet program can be told to do. -/
inductive Command where
  | getBalance
  | unlock
  | send
  deriving DecidableEq

/-- The word of a command on the wallet's command line. -/
def Command.word : Command → String
  | .getBalance => "getbalance"
  | .unlock => "walletpassphrase"
  | .send => "sendfrom"

inductive Failure where
  | configUnreadable (path : List UInt8) (fault : SystemFault)
  | configInvalid (path : List UInt8) (defect : Json.Defect)
  | notStarted (program : String) (command : Command) (fault : SystemFault)
  | balancesInvalid (defect : Json.Defect)
  | accountNotListed (account : String)
  | noAddresses
  | notWritten (fault : SystemFault)
  deriving DecidableEq

/-- Text of a path; what is not text in it is replaced. -/
def pathText (path : List UInt8) : String := String.ofList (Text.Utf8.decodeLossy path)

def Failure.message : Failure → String
  | .configUnreadable path fault =>
    "failed to read config " ++ pathText path ++ ": " ++ fault.message
  | .configInvalid path defect => "invalid config " ++ pathText path ++ ": " ++ defect.message
  | .notStarted program command fault =>
    "failed to run `" ++ program ++ " " ++ command.word ++ "`: " ++ fault.message
  | .balancesInvalid defect =>
    "unexpected output from `" ++ Command.getBalance.word ++ "`: " ++ defect.message
  | .accountNotListed account => "account `" ++ account ++ "` not found in wallet balances"
  | .noAddresses => "config has no destination addresses"
  | .notWritten fault => "IO error: " ++ fault.message

end PaymentDrill
