import PaymentDrill.CommandLine.Word
import PaymentDrill.Text.Terminal

/-!
# Complaints about a command line

What can be wrong with a command line, and the two requests that end its reading as
well: for help and for the version. Numbers on a command line are unsigned, of 64
bits, and in decimal digits; a plus sign may stand in front. The complaint about one is
about the first character that is wrong, be it for what it is or for the size that the
number has reached with it.
-/
namespace PaymentDrill

inductive NumeralFault where
  | empty
  | invalidDigit
  | tooLarge
  deriving DecidableEq

def NumeralFault.message : NumeralFault → String
  | .empty => "cannot parse integer from empty string"
  | .invalidDigit => "invalid digit found in string"
  | .tooLarge => "number too large to fit in target type"

namespace Numeral

/-- The number that digits make behind those that were read already. -/
def ofDigits : Nat → List Char → Except NumeralFault UInt64
  | n, [] => .ok (UInt64.ofNat n)
  | n, c :: cs =>
    if ¬ c.isDigit then .error .invalidDigit
    else
      let n := n * 10 + (c.toNat - '0'.toNat)
      if Nat.pow 2 64 ≤ n then .error .tooLarge else ofDigits n cs

def ofText : List Char → Except NumeralFault UInt64
  | [] => .error .empty
  | ['+'] => .error .invalidDigit
  | '+' :: ds => ofDigits 0 ds
  | ds => ofDigits 0 ds

example : (ofText "+18446744073709551615".toList).toOption = some (-1) := by decide +kernel

example : ofText "18446744073709551616".toList = .error .tooLarge := by rfl

end Numeral

namespace CommandLine

inductive Complaint where
  | invalidCount (value : String) (fault : NumeralFault)
  | invalidSeed (value : String) (fault : NumeralFault)
  | unexpected (word : String)
  | missingValue (s : Setting)
  | repeated (s : Switch)
  | valueNotTaken (value : String) (f : Flag)
  | notText
  deriving DecidableEq

/-- How a setting is shown, with what stands for its value. -/
def Setting.shown : Setting → String
  | .config => "--config <CONFIG>"
  | .walletCli => "--wallet-cli <WALLET_CLI>"
  | .seed => "--seed <SEED>"

def Switch.shown : Switch → String
  | .setting s => s.shown
  | .flag f => "--" ++ f.name

open Text.Terminal (Interruption)

/-- A word of the command line inside of a message; what would steer a terminal is left out of
it. -/
def quoted (i : Interruption) (word : String) : String :=
  "'" ++ String.ofList (Text.Terminal.shown i word.toList) ++ "'"

def Complaint.text (i : Interruption) : Complaint → String
  | .invalidCount value fault =>
    "error: invalid value " ++ quoted i value ++ " for '[COUNT]': " ++ fault.message
  | .invalidSeed value fault =>
    "error: invalid value " ++ quoted i value ++ " for '" ++ Setting.seed.shown ++ "': " ++
      fault.message
  | .unexpected word => "error: unexpected argument " ++ quoted i word ++ " found"
  | .missingValue s => "error: a value is required for '" ++ s.shown ++ "' but none was supplied"
  | .repeated s => "error: the argument '" ++ s.shown ++ "' cannot be used multiple times"
  | .valueNotTaken value f =>
    "error: unexpected value " ++ quoted i value ++ " for '--" ++ f.name ++
      "' found; no more were expected"
  | .notText => "error: invalid UTF-8 was detected in one or more arguments"

/-- The first line of a complaint; a word in it may hold line feeds. -/
def Complaint.line (i : Interruption) (c : Complaint) : String :=
  String.ofList (Text.firstLine (c.text i).toList)

/-- The first line of a complaint that is kept as text. -/
def Complaint.message (c : Complaint) : String := c.line .ending

/-- The first line of a complaint that is written to a stream. -/
def Complaint.printed (c : Complaint) : String := c.line .pausing

/-- Why the reading of a command line ends early. -/
inductive Halt where
  | complaint (c : Complaint)
  | help
  | version
  deriving DecidableEq

def helpText : String :=
  "Send randomized test transactions through the wallet command-line tool\n" ++
  "\n" ++
  "Usage: autotx [OPTIONS] [COUNT]\n" ++
  "\n" ++
  "Arguments:\n" ++
  "  [COUNT]  Number of transactions to send; 0 runs until interrupted [default: 1000]\n" ++
  "\n" ++
  "Options:\n" ++
  "      --config <CONFIG>          " ++
    "Config file [env: AUTOTX_CONFIG, default: autotx.conf]\n" ++
  "      --wallet-cli <WALLET_CLI>  " ++
    "Wallet CLI program [env: AUTOTX_WALLET_CLI, default: hcashctl]\n" ++
  "      --seed <SEED>              Seed for address and amount selection\n" ++
  "      --stop-on-failure          Stop at the first failed send\n" ++
  "      --check-balance            " ++
    "Query the balance before each send and stop when it runs short\n" ++
  "  -h, --help                     Print help\n" ++
  "  -V, --version                  Print version\n"

def versionText : String := "autotx 0.1.0\n"

/-- The first line of a complaint, and the whole text that was asked for. -/
def Halt.message : Halt → String
  | .complaint c => c.message
  | .help => helpText
  | .version => versionText

end CommandLine

end PaymentDrill
