import PaymentDrill.Json.Value

/-!
# Lists, objects and records

A record may be written as an object, its fields in any order among others, or as
a list of its fields in their order. A field that comes twice is noticed at its
key, before its value; the place reported for it is where the end of the object
would have been looked for. The whole document must be one value. Documents are
spread over lines for the eye: their line feeds are removed before they are read, and
nothing else is.
-/
namespace PaymentDrill

namespace Text

def joinLines (cs : List Char) : List Char := cs.filter (· ≠ '\n')

@[simp] theorem joinLines_append (a b : List Char) :
    joinLines (a ++ b) = joinLines a ++ joinLines b := by simp [joinLines]

end Text

namespace Json

/-- The start of the next item, or none in front of the closing bracket. -/
def nextItem (first : Bool) (s : List Char) : Except Fault (Option (List Char)) :=
  match skipBlanks s with
  | [] => .error (.before [] .endInList)
  | c :: r =>
    if c = ']' then .ok none
    else if first then .ok (some (c :: r))
    else if c ≠ ',' then .error (.on (c :: r) .expectedListEnd)
    else match skipBlanks r with
      | [] => .error (.before [] .endInValue)
      | d :: t => if d = ']' then .error (.on (d :: t) .trailingComma) else .ok (some (d :: t))

/-- The rest behind the closing bracket, once the wanted items are read. -/
def endList (s : List Char) : Except Fault (List Char) :=
  match skipBlanks s with
  | [] => .error (.before [] .endInList)
  | c :: r =>
    if c = ']' then .ok r
    else if c ≠ ',' then .error (.on (c :: r) .trailingCharacters)
    else match skipBlanks r with
      | ']' :: t => .error (.on (']' :: t) .trailingComma)
      | t => .error (.on t .trailingCharacters)

/-- The items of a list up to the closing bracket. Every item takes a character at least. -/
def readItems {α : Type} (item : Reader α) : Nat → Bool → Reader (List α)
  | 0, _, s => .error (.on s .endInList)
  | fuel + 1, first, s =>
    match nextItem first s with
    | .error f => .error f
    | .ok none => (endList s).map fun r => ([], r)
    | .ok (some r) =>
      match item r with
      | .error f => .error f
      | .ok (a, r) =>
        match readItems item fuel false r with
        | .error f => .error f
        | .ok (as, r) => .ok (a :: as, r)

/-- A list of any length. -/
def readList {α : Type} (item : Reader α) : Reader (List α) := fun s =>
  match skipBlanks s with
  | [] => .error (.before [] .endInValue)
  | c :: r =>
    if c = '[' then readItems item (r.length + 1) true r else .error (mistyped .list (c :: r))

/-- The text behind the quote of the next key, or none in front of the closing brace. -/
def nextKey (first : Bool) (s : List Char) : Except Fault (Option (List Char)) :=
  match skipBlanks s with
  | [] => .error (.before [] .endInObject)
  | c :: r =>
    if c = '}' then .ok none
    else if first then
      if c = '"' then .ok (some r) else .error (.on (c :: r) .keyNotText)
    else if c ≠ ',' then .error (.on (c :: r) .expectedObjectEnd)
    else match skipBlanks r with
      | [] => .error (.before [] .endInValue)
      | d :: t =>
        if d = '"' then .ok (some t)
        else if d = '}' then .error (.on (d :: t) .trailingComma)
        else .error (.on (d :: t) .keyNotText)

/-- Behind the closing brace, if it comes next, and else behind the blanks. -/
def behindEnd (s : List Char) : List Char :=
  match skipBlanks s with
  | '}' :: r => r
  | r => r

/-- How one member changes what is known of the fields, read behind its key. -/
abbrev Member (σ : Type) := String → σ → Reader σ

/-- The value of a field that must not be known yet. -/
def field {α : Type} (name : String) (known : Option α) (read : Reader α) : Reader α := fun s =>
  if known.isSome then .error (.before (behindEnd s) (.duplicateField name))
  else match colon s with
    | .error f => .error f
    | .ok r => read r

/-- A member that is no field. -/
def unknownMember {σ : Type} (fields : σ) : Reader σ := fun s =>
  match colon s with
  | .error f => .error f
  | .ok r => (skip r).map fun r => (fields, r)

/-- The members of an object up to and with the closing brace. -/
def readMembers {σ : Type} (member : Member σ) : Nat → Bool → σ → Reader σ
  | 0, _, _, s => .error (.on s .endInObject)
  | fuel + 1, first, fields, s =>
    match nextKey first s with
    | .error f => .error f
    | .ok none => .ok (fields, behindEnd s)
    | .ok (some r) =>
      match readText r with
      | .error f => .error f
      | .ok (key, r) =>
        match member (String.ofList key) fields r with
        | .error f => .error f
        | .ok (fields, r) => readMembers member fuel false fields r

/-- A record in either form. -/
def readRecord {α : Type} (name : String) (ofObject ofList : Reader α) : Reader α := fun s =>
  match skipBlanks s with
  | [] => .error (.before [] .endInValue)
  | c :: r =>
    if c = '[' then ofList r
    else if c = '{' then ofObject r
    else .error (mistyped (.record name) (c :: r))

/-- A record in the form of an object: its members, then what they make together. -/
def readObject {σ α : Type} (member : Member σ) (none : σ) (make : σ → Except Cause α) : Reader α :=
  fun s =>
    match readMembers member (s.length + 1) true none s with
    | .error f => .error f
    | .ok (fields, r) =>
      match make fields with
      | .error c => .error (.before r c)
      | .ok a => .ok (a, r)

/-- The next field of a record in the form of a list; the number of fields before it is known. -/
def listField {α : Type} (name : String) (fields before : Nat) (read : Reader α) : Reader α :=
  fun s =>
    match nextItem (before == 0) s with
    | .error f => .error f
    | .ok none =>
      match endList s with
      | .error f => .error f
      | .ok r => .error (.before r (.invalidLength before name fields))
    | .ok (some r) => read r

/-- The text as one value with nothing but blanks around it. -/
def readDocument {α : Type} (read : Reader α) (text : List Char) : Except Defect α :=
  match read text with
  | .error f => .error (f.locate text)
  | .ok (a, r) =>
    match skipBlanks r with
    | [] => .ok a
    | r => .error ((Fault.on r .trailingCharacters).locate text)

end Json

end PaymentDrill
