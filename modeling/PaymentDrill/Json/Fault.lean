import PaymentDrill.Decimal.Layout
import PaymentDrill.Text.Quoted
import PaymentDrill.Text.Utf8

/-!
# Faults of JSON text

What can be wrong with a text, and where. A reader knows a place by the number of
bytes it has left; the place becomes a line and a column when the whole text is at
hand. Two places are of use: in front of the rest, and on its first byte.
-/
namespace PaymentDrill.Json

/-- A value that is not of the kind asked for, as far as it is named. -/
inductive Found where
  | null
  | bool (b : Bool)
  | integer (n : Int)
  | float (x : Binary64)
  | text (t : String)
  | list
  | object
  deriving DecidableEq

/-- A kind of value that is asked for. -/
inductive Expected where
  | text
  | list
  | number
  | word
  | record (name : String)
  deriving DecidableEq

inductive Cause where
  | endInValue
  | endInList
  | endInObject
  | endInText
  | expectedColon
  | expectedListEnd
  | expectedObjectEnd
  | expectedLiteral
  | expectedValue
  | invalidEscape
  | invalidNumber
  | numberOutOfRange
  | controlCharacter
  | keyNotText
  | loneSurrogate
  | brokenSurrogatePair
  | trailingComma
  | trailingCharacters
  | invalidType (found : Found) (expected : Expected)
  | invalidValue (found : Found) (expected : Expected)
  | invalidLength (length : Nat) (name : String) (fields : Nat)
  | duplicateField (name : String)
  | missingField (name : String)
  deriving DecidableEq

def Found.describe : Found → String
  | .null => "null"
  | .bool b => "boolean `" ++ (if b then "true" else "false") ++ "`"
  | .integer n => "integer `" ++ String.ofList (withSign (n < 0) (natText n.natAbs)) ++ "`"
  | .float x => "floating point `" ++ String.ofList x.toScaledText ++ "`"
  | .text t => "string " ++ String.ofList (Text.quoted t.toList)
  | .list => "sequence"
  | .object => "map"

def Expected.describe : Expected → String
  | .text => "a string"
  | .list => "a sequence"
  | .number => "f64"
  | .word => "u32"
  | .record name => "struct " ++ name

def Cause.message : Cause → String
  | .endInValue => "EOF while parsing a value"
  | .endInList => "EOF while parsing a list"
  | .endInObject => "EOF while parsing an object"
  | .endInText => "EOF while parsing a string"
  | .expectedColon => "expected `:`"
  | .expectedListEnd => "expected `,` or `]`"
  | .expectedObjectEnd => "expected `,` or `\x7d`"
  | .expectedLiteral => "expected ident"
  | .expectedValue => "expected value"
  | .invalidEscape => "invalid escape"
  | .invalidNumber => "invalid number"
  | .numberOutOfRange => "number out of range"
  | .controlCharacter => "control character (\\u0000-\\u001F) found while parsing a string"
  | .keyNotText => "key must be a string"
  | .loneSurrogate => "lone leading surrogate in hex escape"
  | .brokenSurrogatePair => "unexpected end of hex escape"
  | .trailingComma => "trailing comma"
  | .trailingCharacters => "trailing characters"
  | .invalidType f e => "invalid type: " ++ f.describe ++ ", expected " ++ e.describe
  | .invalidValue f e => "invalid value: " ++ f.describe ++ ", expected " ++ e.describe
  | .invalidLength n name fields =>
    "invalid length " ++ String.ofList (natText n) ++ ", expected struct " ++ name ++ " with " ++
      String.ofList (natText fields) ++ " elements"
  | .duplicateField name => "duplicate field `" ++ name ++ "`"
  | .missingField name => "missing field `" ++ name ++ "`"

/-- A cause, and how many bytes of the text lie behind its place. -/
structure Fault where
  cause : Cause
  left : Nat
  deriving DecidableEq

/-- The place between what was read and the rest. -/
def Fault.before (rest : List Char) (cause : Cause) : Fault := ⟨cause, Text.Utf8.size rest⟩

/-- The place behind the first byte of the rest, or behind the text when nothing is left. -/
def Fault.on (rest : List Char) (cause : Cause) : Fault := ⟨cause, Text.Utf8.size rest - 1⟩

/-- A cause at a line and a column; the column counts the bytes of the line up to the place. -/
structure Defect where
  cause : Cause
  line : Nat
  column : Nat
  deriving DecidableEq

/-- Line and column of the place behind a number of bytes. -/
def place : Nat → Nat → Nat → List Char → Nat × Nat
  | _, line, column, [] => (line, column)
  | 0, line, column, _ => (line, column)
  | n@(_ + 1), line, column, c :: cs =>
    if c = '\n' then place (n - 1) (line + 1) 0 cs
    else place (n - c.utf8Size) line (column + min n c.utf8Size) cs

def Fault.locate (text : List Char) (f : Fault) : Defect :=
  let (line, column) := place (Text.Utf8.size text - f.left) 1 0 text
  ⟨f.cause, line, column⟩

def Defect.message (d : Defect) : String :=
  d.cause.message ++ " at line " ++ String.ofList (natText d.line) ++ " column " ++
    String.ofList (natText d.column)

/-- A reader returns a value and the rest of the text. -/
abbrev Reader (α : Type) := List Char → Except Fault (α × List Char)

end PaymentDrill.Json
