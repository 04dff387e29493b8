import PaymentDrill.Json.Record

/-!
# Balances

What a wallet reports about its accounts: entries in the order of the report, each
with an account's name and the amount it can spend. The first entry of a name is
the one that counts.
-/
namespace PaymentDrill

structure Balance where
  account : String
  spendable : Binary64
  deriving DecidableEq

abbrev Balances := List Balance

namespace Balances

/-- The amount that an account can spend, if the report lists it. -/
def spendable? (b : Balances) (account : String) : Option Binary64 :=
  (b.find? (·.account == account)).map (·.spendable)

theorem spendable?_cons (e : Balance) (b : Balances) (account : String) :
    spendable? (e :: b) account =
      if e.account = account then some e.spendable else spendable? b account := by
  unfold spendable?
  by_cases h : e.account = account <;> simp [h]

open Json

def entryName : String := "AccountBalance"

/-- The fields of an entry that an object has given so far. -/
structure EntryFields where
  account : Option String
  spendable : Option Binary64

def entryMember : Member EntryFields := fun key f s =>
  if key = "accountname" then
    (field key f.account readString s).map fun (v, r) => ({ f with account := some v }, r)
  else if key = "spendable" then
    (field key f.spendable readBinary64 s).map fun (v, r) => ({ f with spendable := some v }, r)
  else unknownMember f s

def entryOfFields (f : EntryFields) : Except Cause Balance :=
  match f.account with
  | none => .error (.missingField "accountname")
  | some account => match f.spendable with
    | none => .error (.missingField "spendable")
    | some spendable => .ok ⟨account, spendable⟩

def entryOfList : Reader Balance := fun s => do
  let (account, s) ← listField entryName 2 0 readString s
  let (spendable, s) ← listField entryName 2 1 readBinary64 s
  let s ← endList s
  return (⟨account, spendable⟩, s)

def readEntry : Reader Balance :=
  readRecord entryName (readObject entryMember ⟨none, none⟩ entryOfFields) entryOfList

def recordName : String := "BalanceReport"

def member : Member (Option Balances) := fun key f s =>
  if key = "balances" then
    (field key f (readList readEntry) s).map fun (v, r) => (some v, r)
  else unknownMember f s

/-- A report in the form of a list holds the list of entries, or nothing. -/
def ofList : Reader Balances := fun s =>
  match nextItem true s with
  | .error f => .error f
  | .ok none => (endList s).map fun r => ([], r)
  | .ok (some r) => do
    let (entries, r) ← readList readEntry r
    let r ← endList r
    return (entries, r)

/-- A report without entries is empty. -/
def read : Reader Balances :=
  readRecord recordName (readObject member none fun f => .ok (f.getD [])) ofList

/-- Reads a report from text whose line breaks do not count. -/
def ofText (text : List Char) : Except Defect Balances := readDocument read (Text.joinLines text)

end Balances

end PaymentDrill
