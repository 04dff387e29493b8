import PaymentDrill.Text.Utf8

/-!
# Words of a command line

What a word is by its look: the mark behind which every word is a value, a long name
with or without a value attached to it, a group of short names, or a value. A dash
alone is a value.
-/
namespace PaymentDrill.CommandLine

/-- A setting, which takes a value. -/
inductive Setting where
  | config
  | walletCli
  | seed
  deriving DecidableEq

/-- A flag, which takes none. -/
inductive Flag where
  | stopOnFailure
  | checkBalance
  | help
  | version
  deriving DecidableEq

inductive Switch where
  | setting (s : Setting)
  | flag (f : Flag)
  deriving DecidableEq

def Setting.name : Setting → String
  | .config => "config"
  | .walletCli => "wallet-cli"
  | .seed => "seed"

def Flag.name : Flag → String
  | .stopOnFailure => "stop-on-failure"
  | .checkBalance => "check-balance"
  | .help => "help"
  | .version => "version"

def Switch.name : Switch → String
  | .setting s => s.name
  | .flag f => f.name

def switches : List Switch :=
  [.setting .config, .setting .walletCli, .setting .seed, .flag .stopOnFailure,
    .flag .checkBalance, .flag .help, .flag .version]

/-- The switch of a long name; names are not abbreviated. -/
def switch? (name : List UInt8) : Option Switch :=
  switches.find? fun s => Text.Utf8.encode s.name.toList == name

inductive Word where
  | onlyValues
  | long (name : List UInt8) (value : Option (List UInt8))
  | short (names : List UInt8)
  | value (bytes : List UInt8)
  deriving DecidableEq

def dash : UInt8 := 45

def equalsSign : UInt8 := 61

/-- A name up to the first equals sign, and the value behind it. -/
def Word.ofLong (bytes : List UInt8) : Word :=
  match bytes.dropWhile (· != equalsSign) with
  | [] => .long bytes none
  | _ :: v => .long (bytes.takeWhile (· != equalsSign)) (some v)

def Word.ofBytes (w : List UInt8) : Word :=
  match w with
  | [] => .value []
  | [_] => .value w
  | a :: b :: rest =>
    if a ≠ dash then .value w
    else if b ≠ dash then .short (b :: rest)
    else if rest = [] then .onlyValues
    else Word.ofLong rest

end PaymentDrill.CommandLine
