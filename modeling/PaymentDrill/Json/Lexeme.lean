import PaymentDrill.Json.Fault

/-!
# Blanks, literals and strings

The tokens of JSON text other than numbers. A string is read into its characters,
or passed over when nobody wants it; passing over checks escapes by their form
only, so a lone surrogate goes through there.
-/
namespace PaymentDrill.Json

def isBlank (c : Char) : Bool := c == ' ' || c == '\n' || c == '\t' || c == '\r'

def skipBlanks (s : List Char) : List Char := s.dropWhile isBlank

/-- The remaining letters of a literal. -/
def literal : List Char → List Char → Except Fault (List Char)
  | [], s => .ok s
  | _ :: _, [] => .error (.before [] .endInValue)
  | c :: cs, d :: s => if d = c then literal cs s else .error (.on (d :: s) .expectedLiteral)

def hexValue? (c : Char) : Option Nat :=
  if '0' ≤ c ∧ c ≤ '9' then some (c.toNat - '0'.toNat)
  else if 'a' ≤ c ∧ c ≤ 'f' then some (c.toNat - 'a'.toNat + 10)
  else if 'A' ≤ c ∧ c ≤ 'F' then some (c.toNat - 'A'.toNat + 10)
  else none

def hexFour? (a b c d : Char) : Option Nat := do
  let a ← hexValue? a
  let b ← hexValue? b
  let c ← hexValue? c
  let d ← hexValue? d
  some (((a * 16 + b) * 16 + c) * 16 + d)

/-- Four bytes are taken before they are looked at, so a wrong digit is reported behind them. -/
def hexFault (s : List Char) : Fault :=
  if Text.Utf8.size s < 4 then .before [] .endInText
  else ⟨.invalidEscape, Text.Utf8.size s - 4⟩

/-- A code unit of four hexadecimal digits. -/
def codeUnit (s : List Char) : Except Fault (Nat × List Char) :=
  match s with
  | a :: b :: c :: d :: rest =>
    match hexFour? a b c d with
    | some n => .ok (n, rest)
    | none => .error (hexFault s)
  | _ => .error (hexFault s)

theorem codeUnit_length {s r : List Char} {n : Nat} (h : codeUnit s = .ok (n, r)) :
    r.length + 4 = s.length := by
  unfold codeUnit at h
  split at h
  · split at h
    · cases h; simp
    · cases h
  · cases h

def isLeading (n : Nat) : Bool := 0xD800 ≤ n && n ≤ 0xDBFF

def isTrailing (n : Nat) : Bool := 0xDC00 ≤ n && n ≤ 0xDFFF

/-- The character of a surrogate pair. -/
def ofPair (high low : Nat) : Char :=
  Char.ofNat ((high - 0xD800) * 0x400 + (low - 0xDC00) + 0x10000)

/-- The second half of a surrogate pair, an escape of its own. -/
def trailingUnit (high : Nat) (s : List Char) : Except Fault (Char × List Char) :=
  match s with
  | [] => .error (.before [] .endInText)
  | c :: r =>
    if c ≠ '\\' then .error (.on (c :: r) .brokenSurrogatePair)
    else match r with
      | [] => .error (.before [] .endInText)
      | d :: t =>
        if d ≠ 'u' then .error (.on (d :: t) .brokenSurrogatePair)
        else match codeUnit t with
          | .error f => .error f
          | .ok (low, t) =>
            if isTrailing low then .ok (ofPair high low, t) else .error (.before t .loneSurrogate)

/-- The character behind `\u`. -/
def unicodeEscape (s : List Char) : Except Fault (Char × List Char) :=
  match codeUnit s with
  | .error f => .error f
  | .ok (n, r) =>
    if isTrailing n then .error (.before r .loneSurrogate)
    else if isLeading n then trailingUnit n r
    else .ok (Char.ofNat n, r)

/-- What a single letter behind a backslash stands for. -/
def shortEscape? : Char → Option Char
  | '"' => some '"'
  | '\\' => some '\\'
  | '/' => some '/'
  | 'b' => some '\x08'
  | 'f' => some '\x0c'
  | 'n' => some '\n'
  | 'r' => some '\r'
  | 't' => some '\t'
  | _ => none

/-- The character behind a backslash. -/
def escape (s : List Char) : Except Fault (Char × List Char) :=
  match s with
  | [] => .error (.before [] .endInText)
  | c :: r =>
    if c = 'u' then unicodeEscape r
    else match shortEscape? c with
      | some d => .ok (d, r)
      | none => .error (.on (c :: r) .invalidEscape)

theorem trailingUnit_length {high : Nat} {s r : List Char} {c : Char}
    (h : trailingUnit high s = .ok (c, r)) : r.length < s.length := by
  unfold trailingUnit at h
  split at h
  · cases h
  · split at h
    · cases h
    · split at h
      · cases h
      · split at h
        · cases h
        · split at h
          · cases h
          · next hu =>
            have := codeUnit_length hu
            split at h
            · simp only [Except.ok.injEq, Prod.mk.injEq] at h
              obtain ⟨_, rfl⟩ := h
              simp only [List.length_cons]
              omega
            · cases h

theorem escape_length {s r : List Char} {c : Char} (h : escape s = .ok (c, r)) :
    r.length < s.length := by
  unfold escape at h
  split at h
  · cases h
  · split at h
    · unfold unicodeEscape at h
      split at h
      · cases h
      · next hu =>
        have := codeUnit_length hu
        split at h
        · cases h
        · split at h
          · have := trailingUnit_length h; simp only [List.length_cons]; omega
          · cases h; simp only [List.length_cons]; omega
    · split at h
      · cases h; simp
      · cases h

def isControl (c : Char) : Bool := c.toNat < 0x20

/-- The characters up to the closing quote. -/
def readText (s : List Char) : Except Fault (List Char × List Char) :=
  match s with
  | [] => .error (.before [] .endInText)
  | '"' :: r => .ok ([], r)
  | '\\' :: r =>
    match h : escape r with
    | .error f => .error f
    | .ok (c, r') =>
      have : r'.length < r.length := escape_length h
      match readText r' with
      | .error f => .error f
      | .ok (cs, rest) => .ok (c :: cs, rest)
  | c :: r =>
    if isControl c then .error (.on (c :: r) .controlCharacter)
    else match readText r with
      | .error f => .error f
      | .ok (cs, rest) => .ok (c :: cs, rest)
termination_by s.length

/-- What follows a backslash when only the form of the escape counts. -/
def skipEscape (s : List Char) : Except Fault (List Char) :=
  match s with
  | [] => .error (.before [] .endInText)
  | c :: r =>
    if c = 'u' then match codeUnit r with
      | .error f => .error f
      | .ok (_, r) => .ok r
    else if (shortEscape? c).isSome then .ok r
    else .error (.on (c :: r) .invalidEscape)

theorem skipEscape_length {s r : List Char} (h : skipEscape s = .ok r) : r.length < s.length := by
  unfold skipEscape at h
  split at h
  · cases h
  · split at h
    · split at h
      · cases h
      · next hu => cases h; have := codeUnit_length hu; simp only [List.length_cons]; omega
    · split at h
      · cases h; simp
      · cases h

/-- Passes over the rest of a string and its closing quote. -/
def skipText (s : List Char) : Except Fault (List Char) :=
  match s with
  | [] => .error (.before [] .endInText)
  | '"' :: r => .ok r
  | '\\' :: r =>
    match h : skipEscape r with
    | .error f => .error f
    | .ok r' =>
      have : r'.length < r.length := skipEscape_length h
      skipText r'
  | c :: r =>
    if isControl c then .error (.before (c :: r) .controlCharacter) else skipText r
termination_by s.length

end PaymentDrill.Json
