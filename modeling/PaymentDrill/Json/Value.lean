import PaymentDrill.Json.Number

/-!
# Values

Two ways to handle a value that is not wanted: passing over it, whatever it is, and
naming its kind in a complaint. A complaint reads a scalar to its end first, so a
fault inside the scalar is what is reported; a list or an object is named unread.
-/
namespace PaymentDrill.Json

/-- The colon behind a key. -/
def colon (s : List Char) : Except Fault (List Char) :=
  match skipBlanks s with
  | [] => .error (.before [] .endInObject)
  | c :: r => if c = ':' then .ok r else .error (.on (c :: r) .expectedColon)

/-- Passes over a value that is neither a list nor an object and starts with the given character. -/
def skipScalar (c : Char) (r : List Char) : Except Fault (List Char) :=
  if c = '"' then skipText r
  else if c = 'n' then literal ['u', 'l', 'l'] r
  else if c = 't' then literal ['r', 'u', 'e'] r
  else if c = 'f' then literal ['a', 'l', 's', 'e'] r
  else if c = '-' then skipNumber r
  else if c.isDigit then skipNumber (c :: r)
  else .error (.on (c :: r) .expectedValue)

mutual

/-- Passes over any value. Every call uses up fuel, and a value takes at most two calls for each of
its characters. -/
def skipValue : Nat → List Char → Except Fault (List Char)
  | 0, s => .error (.on s .endInValue)
  | fuel + 1, s =>
    match skipBlanks s with
    | [] => .error (.before [] .endInValue)
    | c :: r =>
      if c = '[' then
        match skipBlanks r with
        | [] => .error (.before [] .endInList)
        | d :: t => if d = ']' then .ok t else skipItems fuel (d :: t)
      else if c = '{' then
        match skipBlanks r with
        | [] => .error (.before [] .endInObject)
        | d :: t => if d = '}' then .ok t else skipMembers fuel (d :: t)
      else skipScalar c r

/-- Passes over the items of a list from the next one on, and the closing bracket. -/
def skipItems : Nat → List Char → Except Fault (List Char)
  | 0, s => .error (.on s .endInList)
  | fuel + 1, s =>
    match skipValue fuel s with
    | .error f => .error f
    | .ok r =>
      match skipBlanks r with
      | [] => .error (.before [] .endInList)
      | d :: t =>
        if d = ',' then skipItems fuel t
        else if d = ']' then .ok t
        else .error (.on (d :: t) .expectedListEnd)

/-- Passes over the members of an object from the next one on, and the closing brace. -/
def skipMembers : Nat → List Char → Except Fault (List Char)
  | 0, s => .error (.on s .endInObject)
  | fuel + 1, s =>
    match skipBlanks s with
    | [] => .error (.before [] .endInObject)
    | q :: r =>
      if q ≠ '"' then .error (.on (q :: r) .keyNotText)
      else match skipText r with
        | .error f => .error f
        | .ok r =>
          match colon r with
          | .error f => .error f
          | .ok r =>
            match skipValue fuel r with
            | .error f => .error f
            | .ok r =>
              match skipBlanks r with
              | [] => .error (.before [] .endInObject)
              | d :: t =>
                if d = ',' then skipMembers fuel t
                else if d = '}' then .ok t
                else .error (.on (d :: t) .expectedObjectEnd)

end

/-- Passes over any value, with fuel enough for every text. -/
def skip (s : List Char) : Except Fault (List Char) := skipValue (2 * s.length + 2) s

/-- The kind of the value that starts here, and the rest behind it. -/
def found : Reader Found
  | [] => .error (.before [] .expectedValue)
  | c :: r =>
    if c = '"' then (readText r).map fun (t, r) => (.text (String.ofList t), r)
    else if c = 'n' then (literal ['u', 'l', 'l'] r).map fun r => (.null, r)
    else if c = 't' then (literal ['r', 'u', 'e'] r).map fun r => (.bool true, r)
    else if c = 'f' then (literal ['a', 'l', 's', 'e'] r).map fun r => (.bool false, r)
    else if c = '-' then (readNumber true r).map fun (n, r) => (n.found, r)
    else if c.isDigit then (readNumber false (c :: r)).map fun (n, r) => (n.found, r)
    else if c = '[' then .ok (.list, c :: r)
    else if c = '{' then .ok (.object, c :: r)
    else .error (.on (c :: r) .expectedValue)

/-- The complaint that another kind of value was asked for. -/
def mistyped (expected : Expected) (s : List Char) : Fault :=
  match found s with
  | .error f => f
  | .ok (f, r) => .before r (.invalidType f expected)

def readString : Reader String := fun s =>
  match skipBlanks s with
  | [] => .error (.before [] .endInValue)
  | c :: r =>
    if c = '"' then (readText r).map fun (t, r) => (String.ofList t, r)
    else .error (mistyped .text (c :: r))

/-- A number where one of the given kind is asked for. -/
def readNumeral (expected : Expected) : Reader Number := fun s =>
  match skipBlanks s with
  | [] => .error (.before [] .endInValue)
  | c :: r =>
    if c = '-' then readNumber true r
    else if c.isDigit then readNumber false (c :: r)
    else .error (mistyped expected (c :: r))

/-- Any number, as a binary64 value. -/
def readBinary64 : Reader Binary64 := fun s =>
  (readNumeral .number s).map fun (n, r) => (n.toBinary64, r)

/-- An integer of 32 bits without sign. -/
def readWord : Reader UInt32 := fun s =>
  match readNumeral .word s with
  | .error f => .error f
  | .ok (.integer n, r) =>
    if 0 ≤ n ∧ n < Nat.pow 2 32 then .ok (UInt32.ofNat n.toNat, r)
    else .error (.before r (.invalidValue (.integer n) .word))
  | .ok (.float x, r) => .error (.before r (.invalidType (.float x) .word))

end PaymentDrill.Json
