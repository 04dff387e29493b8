import PaymentDrill.Failure
import PaymentDrill.Json.Record

/-!
# Configuration

What a drill needs to know about the wallet: how to unlock it, which account pays,
where the payments may go, how large they may be, and how well confirmed the money
must be. Every field must be given, and exactly once. A configuration is read from a
file, which must be text from its first byte to its last; every complaint about it
names the path.
-/
namespace PaymentDrill

structure Config where
  password : String
  addresses : List String
  maxAmount : Binary64
  minConfirmations : UInt32
  account : String
  deriving DecidableEq

namespace Config

def recordName : String := "AutoTxConfig"

/-- The fields that an object has given so far. -/
structure Fields where
  password : Option String
  addresses : Option (List String)
  maxAmount : Option Binary64
  minConfirmations : Option UInt32
  account : Option String

def Fields.none : Fields := ⟨.none, .none, .none, .none, .none⟩

open Json

def member : Member Fields := fun key f s =>
  if key = "password" then
    (field key f.password readString s).map fun (v, r) => ({ f with password := some v }, r)
  else if key = "address" then
    (field key f.addresses (readList readString) s).map fun (v, r) =>
      ({ f with addresses := some v }, r)
  else if key = "maxtxamount" then
    (field key f.maxAmount readBinary64 s).map fun (v, r) => ({ f with maxAmount := some v }, r)
  else if key = "minconf" then
    (field key f.minConfirmations readWord s).map fun (v, r) =>
      ({ f with minConfirmations := some v }, r)
  else if key = "account" then
    (field key f.account readString s).map fun (v, r) => ({ f with account := some v }, r)
  else unknownMember f s

/-- The first field that is missing decides the complaint. -/
def ofFields (f : Fields) : Except Cause Config :=
  match f.password with
  | none => .error (.missingField "password")
  | some password => match f.addresses with
    | none => .error (.missingField "address")
    | some addresses => match f.maxAmount with
      | none => .error (.missingField "maxtxamount")
      | some maxAmount => match f.minConfirmations with
        | none => .error (.missingField "minconf")
        | some minConfirmations => match f.account with
          | none => .error (.missingField "account")
          | some account => .ok ⟨password, addresses, maxAmount, minConfirmations, account⟩

/-- The five fields in the form of a list. -/
def ofList : Reader Config := fun s => do
  let (password, s) ← listField recordName 5 0 readString s
  let (addresses, s) ← listField recordName 5 1 (readList readString) s
  let (maxAmount, s) ← listField recordName 5 2 readBinary64 s
  let (minConfirmations, s) ← listField recordName 5 3 readWord s
  let (account, s) ← listField recordName 5 4 readString s
  let s ← endList s
  return (⟨password, addresses, maxAmount, minConfirmations, account⟩, s)

def read : Reader Config := readRecord recordName (readObject member .none ofFields) ofList

/-- Reads a configuration from text whose line breaks do not count. -/
def ofText (text : List Char) : Except Defect Config := readDocument read (Text.joinLines text)

/-- The configuration in the content of the file at a path, if the content could be read. -/
def ofFile (path : List UInt8) (content : Except SystemFault (List UInt8)) :
    Except Failure Config :=
  match content with
  | .error fault => .error (.configUnreadable path fault)
  | .ok bytes =>
    match Text.Utf8.decode? bytes with
    | none => .error (.configUnreadable path .notText)
    | some text => (ofText text).mapError (.configInvalid path)

end Config

end PaymentDrill
