import PaymentDrill.CommandLine.Complaint
import PaymentDrill.Session

/-!
# Invocations

What a command line asks for. Its words are read in order. A flag, and a setting
with its value attached, is settled at its word; a setting whose value is a word of
its own, and the count, is settled when the next switch or the count begins, or at
the end. A word that fits nowhere is complained about at once.

Two variables of the environment stand in for settings that a command line leaves
out. A variable that is not text counts as unset, and an empty one is used. Falling
back to the built-in value is noted.
-/
namespace PaymentDrill.CommandLine

structure Invocation where
  count : UInt64
  config : Option (List UInt8)
  walletCli : Option String
  seed : Option UInt64
  stopOnFailure : Bool
  checkBalance : Bool
  deriving DecidableEq

namespace Invocation

def defaultCount : UInt64 := 1000

/-- What an empty command line asks for. -/
def default : Invocation := ⟨defaultCount, none, none, none, false, false⟩

def order (i : Invocation) : Order := ⟨i.count, i.stopOnFailure, i.checkBalance⟩

def limit (i : Invocation) : Limit := Limit.ofCount i.count

/-- The stream of the seed, or a fresh one when no seed is given. -/
def stream (i : Invocation) (fresh : Keystream) : Keystream :=
  match i.seed with
  | some s => Keystream.ofSeed s
  | none => fresh

end Invocation

/-- What has begun and is not settled yet. -/
inductive Pending where
  | nothing
  | setting (s : Setting) (value : Option (List UInt8))
  | count (value : List UInt8)
  deriving DecidableEq

/-- How far the reading has come. -/
structure Progress where
  settled : Invocation
  pending : Pending
  /-- Whether a count has begun. -/
  counted : Bool
  /-- Whether every further word is a value. -/
  onlyValues : Bool
  deriving DecidableEq

def Progress.start : Progress := ⟨.default, .nothing, false, false⟩

def complain {α : Type} (c : Complaint) : Except Halt α := .error (.complaint c)

/-- The characters of a value that must be text. -/
def textOf (value : List UInt8) : Except Halt (List Char) :=
  match Text.Utf8.decode? value with
  | some cs => .ok cs
  | none => complain .notText

/-- A number, or the complaint about its text. -/
def numberOf (complaint : String → NumeralFault → Complaint) (value : List UInt8) :
    Except Halt UInt64 :=
  match textOf value with
  | .error h => .error h
  | .ok cs =>
    match Numeral.ofText cs with
    | .error f => complain (complaint (String.ofList cs) f)
    | .ok n => .ok n

/-- Takes the value of a setting. Coming twice is worse than a bad value. -/
def take (s : Setting) (value : List UInt8) (i : Invocation) : Except Halt Invocation :=
  match s with
  | .config =>
    if i.config.isSome then complain (.repeated (.setting s))
    else if value = [] then complain (.missingValue s)
    else .ok { i with config := some value }
  | .walletCli =>
    if i.walletCli.isSome then complain (.repeated (.setting s))
    else (textOf value).map fun cs => { i with walletCli := some (String.ofList cs) }
  | .seed =>
    if i.seed.isSome then complain (.repeated (.setting s))
    else (numberOf .invalidSeed value).map fun n => { i with seed := some n }

def takeCount (value : List UInt8) (i : Invocation) : Except Halt Invocation :=
  (numberOf .invalidCount value).map fun n => { i with count := n }

/-- Raises a flag. -/
def raise (f : Flag) (i : Invocation) : Except Halt Invocation :=
  match f with
  | .stopOnFailure =>
    if i.stopOnFailure then complain (.repeated (.flag f)) else .ok { i with stopOnFailure := true }
  | .checkBalance =>
    if i.checkBalance then complain (.repeated (.flag f)) else .ok { i with checkBalance := true }
  | .help => .error .help
  | .version => .error .version

/-- Settles what is pending. -/
def Progress.settle (p : Progress) : Except Halt Invocation :=
  match p.pending with
  | .nothing => .ok p.settled
  | .setting s none => complain (.missingValue s)
  | .setting s (some value) => take s value p.settled
  | .count value => takeCount value p.settled

/-- Settles what is pending and goes on from there. -/
def Progress.settleThen (p : Progress) (act : Invocation → Except Halt Invocation) :
    Except Halt Progress :=
  match p.settle with
  | .error h => .error h
  | .ok i => (act i).map fun i => { p with settled := i, pending := .nothing }

/-- Text of a word; what is not text in it is replaced. -/
def shownWord (w : List UInt8) : String := String.ofList (Text.Utf8.decodeLossy w)

/-- A value that no setting waits for is the count, unless there is one. -/
def Progress.readCount (p : Progress) (w : List UInt8) : Except Halt Progress :=
  if p.counted then complain (.unexpected (shownWord w))
  else match p.settle with
    | .error h => .error h
    | .ok i => .ok { p with settled := i, pending := .count w, counted := true }

/-- The first short name of a group, or the whole group when it does not begin with text. -/
def firstShort (names : List UInt8) : String :=
  match Text.Utf8.pieces names with
  | some c :: _ => String.ofList ['-', c]
  | _ => "-" ++ shownWord names

/-- A group of short names; both names that exist end the reading. -/
def Progress.readShort (p : Progress) (names : List UInt8) : Except Halt Progress :=
  match names.head? with
  | some 104 => p.settleThen (raise .help)
  | some 86 => p.settleThen (raise .version)
  | _ => complain (.unexpected (firstShort names))

def Progress.readLong (p : Progress) (name : List UInt8) (value : Option (List UInt8)) :
    Except Halt Progress :=
  match switch? name, value with
  | none, _ => complain (.unexpected ("--" ++ shownWord name))
  | some (.flag f), some value => complain (.valueNotTaken (shownWord value) f)
  | some (.flag f), none => p.settleThen (raise f)
  | some (.setting s), some value => p.settleThen (take s value)
  | some (.setting s), none =>
    (p.settleThen .ok).map fun p => { p with pending := .setting s none }

def Progress.readValue (p : Progress) (w : List UInt8) : Except Halt Progress :=
  match p.pending with
  | .setting s none => .ok { p with pending := .setting s (some w) }
  | _ => p.readCount w

/-- Reads a word. -/
def Progress.step (p : Progress) (w : List UInt8) : Except Halt Progress :=
  if p.onlyValues then p.readCount w
  else match Word.ofBytes w with
    | .onlyValues => .ok { p with onlyValues := true }
    | .long name value => p.readLong name value
    | .short names => p.readShort names
    | .value w => p.readValue w

/-- Reads words to the end. -/
def Progress.readAll (p : Progress) : List (List UInt8) → Except Halt Invocation
  | [] => p.settle
  | w :: ws =>
    match p.step w with
    | .error h => .error h
    | .ok p => p.readAll ws

/-- What the words of a command line ask for. -/
def read (words : List (List UInt8)) : Except Halt Invocation := Progress.start.readAll words

structure Environment where
  config : Option (List UInt8)
  walletCli : Option (List UInt8)
  deriving DecidableEq

def defaultConfig : String := "autotx.conf"

def defaultWallet : String := "hcashctl"

/-- The text of a variable, if it is set to some. -/
def variableText (value : Option (List UInt8)) : Option String :=
  (value.bind Text.Utf8.decode?).map String.ofList

/-- A variable's text, or the built-in one with a notice of it. -/
def variableOr (value : Option (List UInt8)) (fallback : String) (notice : Notice) :
    String × List Notice :=
  match variableText value with
  | some t => (t, [])
  | none => (fallback, [notice])

/-- Where the configuration is. -/
def Invocation.configPath (i : Invocation) (e : Environment) : List UInt8 × List Notice :=
  match i.config with
  | some path => (path, [])
  | none =>
    let (t, notices) := variableOr e.config defaultConfig .pathDefaulted
    (Text.Utf8.encode t.toList, notices)

/-- What the wallet program is called. -/
def Invocation.walletProgram (i : Invocation) (e : Environment) : String × List Notice :=
  match i.walletCli with
  | some name => (name, [])
  | none => variableOr e.walletCli defaultWallet .walletDefaulted

end PaymentDrill.CommandLine
