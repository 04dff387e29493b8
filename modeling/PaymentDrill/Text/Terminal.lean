/-!
# Text on a terminal

Text may hold sequences that steer a terminal instead of standing for themselves. An
escape character opens each of them, and what follows it says which kind it is and
where it ends. This module keeps of a text what a terminal shows: no sequence, and
no control other than those that part words and lines. White space is shown also when
it comes in a sequence of most kinds. Two rules say what becomes of that sequence:
either it is over, or it pauses until a control comes.

What a program writes is read line by line. A line ends with a line feed, and a
carriage return in front of the feed belongs to the end as well.
-/
namespace PaymentDrill.Text

def withoutReturn (line : List Char) : List Char :=
  if line.getLast? = some '\r' then line.dropLast else line

/-- The lines of a text; what follows the last line feed is one if there is any of it. -/
def lines (cs : List Char) : List (List Char) :=
  let pieces := cs.splitOn '\n'
  pieces.dropLast.map withoutReturn ++ pieces.getLast?.toList.filter (· ≠ [])

/-- Text up to the end of its first line. -/
def firstLine (cs : List Char) : List Char := (lines cs).headD []

namespace Terminal

/-- A control that only parts words or lines. -/
def isBreak (c : Char) : Bool := c == '\t' || c == '\n' || c == '\x0c' || c == '\r'

/-- Whether a character is no control, or one that only parts words or lines. -/
def isPlain (c : Char) : Bool := isBreak c || (' ' ≤ c && c != '\x7f')

/-- Where a terminal is in its reading. -/
inductive Mode where
  /-- Between sequences. -/
  | text
  /-- Behind an escape character. -/
  | escape
  /-- In a sequence that any letter, digit or late sign ends. -/
  | shift
  /-- In a control sequence, which any letter or late sign ends. -/
  | control
  /-- At the head of a string for the device: nothing read yet. -/
  | deviceStart
  /-- At the head of a string for the device: behind a parameter. -/
  | deviceParameter
  /-- At the head of a string for the device: behind an early sign. -/
  | deviceSign
  /-- In a string that is passed on or ignored. -/
  | string
  /-- In a command for the system behind the terminal, which a bell ends. -/
  | command
  deriving DecidableEq

/-- What becomes of a sequence that white space is shown in. -/
inductive Interruption where
  /-- It is over. -/
  | ending
  /-- It goes on with the next control, unless a character beyond ASCII is shown before. -/
  | pausing
  deriving DecidableEq

namespace Mode

/-- Whether a character is shown. -/
def shows (m : Mode) (c : Char) : Bool :=
  match m with
  | text => isPlain c
  | escape | shift | control => isBreak c
  | _ => false

/-- A string ends with the byte `9C`, also when it belongs to the encoding of another character. -/
def endsString (c : Char) : Bool := (String.utf8EncodeChar c).contains 0x9C

/-- How the head of a string for the device goes on, unless it stays in its mode. -/
def afterHead (m : Mode) (code : Nat) : Mode :=
  if 0x20 ≤ code ∧ code < 0x30 then deviceSign
  else if 0x30 ≤ code ∧ code < 0x40 then
    if m = deviceStart ∨ (m = deviceParameter ∧ code < 0x3C) then deviceParameter else string
  else if 0x40 ≤ code ∧ code < 0x7F then string
  else m

/-- The mode behind a character that is not shown and neither opens nor cancels a sequence. -/
def within (m : Mode) (c : Char) : Mode :=
  let code := c.toNat
  match m with
  | text => text
  | escape =>
    if code < 0x20 ∨ 0x7F ≤ code then escape
    else if code < 0x30 then shift
    else match c with
      | '[' => control
      | ']' => command
      | 'P' => deviceStart
      | 'X' | '^' | '_' => string
      | _ => text
  | shift => if 0x30 ≤ code ∧ code < 0x7F then text else shift
  | control => if 0x40 ≤ code ∧ code < 0x7F then text else control
  | deviceStart | deviceParameter | deviceSign => m.afterHead code
  | string => if endsString c then text else string
  | command => if c = '\x07' then text else command

/-- The mode behind a character that is not shown: an escape opens a sequence from anywhere, and two
controls cancel any. -/
def next (m : Mode) (c : Char) : Mode :=
  if c = '\x1b' then escape
  else if c = '\x18' ∨ c = '\x1a' then text
  else m.within c

/-- The mode behind a character that is shown. -/
def afterShown (i : Interruption) (m : Mode) (c : Char) : Mode :=
  match i with
  | .ending => text
  | .pausing => if c.toNat < 0x80 then m else text

/-- What is shown of a text that is read from a mode on. Behind a character that was shown all
others are, up to the next control. -/
def shown (i : Interruption) : Mode → (showing : Bool) → List Char → List Char
  | _, _, [] => []
  | m, showing, c :: rest =>
    if m.shows c || (showing && isPlain c) then c :: shown i (m.afterShown i c) true rest
    else shown i (m.next c) false rest

end Mode

/-- What a terminal shows of a text. -/
def shown (i : Interruption) (cs : List Char) : List Char := Mode.text.shown i false cs

end Terminal

end PaymentDrill.Text
