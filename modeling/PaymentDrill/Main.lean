import PaymentDrill.Program

/-!
# Rehearsals

The program on a terminal, with a recorded wallet: the configuration is read from its
file, the recording from standard input. The summary goes to standard output behind
what the drill has printed, and the log goes to standard error.

A recording is what a wallet program did once, played back without starting it. It
holds a line for each start: the word of the command, the exit status, and what was
printed. The n-th start for a command gets the n-th line for it, and the last one
repeats.
-/
namespace PaymentDrill

def Command.all : List Command := [.getBalance, .unlock, .send]

/-- The command that a word stands for. -/
def Command.ofWord? (word : String) : Option Command := Command.all.find? (·.word == word)

/-- The ends that the starts for each command came to. -/
structure Recording where
  completions : List (Command × Completion)

namespace Recording

def spaceSplit (cs : List Char) : List Char × List Char :=
  (cs.takeWhile (· ≠ ' '), (cs.dropWhile (· ≠ ' ')).drop 1)

/-- A line of a recording. -/
def ofLine? (line : List Char) : Option (Command × Completion) :=
  let (word, rest) := spaceSplit line
  let (status, output) := spaceSplit rest
  match Command.ofWord? (String.ofList word), Numeral.ofText status with
  | some c, .ok n =>
    let output := if output = [] then [] else Text.Utf8.encode (output ++ ['\n'])
    some (c, { output, exit := .status n.toUInt8 })
  | _, _ => none

def ofLines (lines : List (List Char)) : Recording := ⟨lines.filterMap ofLine?⟩

/-- Plays the recording back; the state is the list of the commands so far. -/
def host (r : Recording) : Host (List Command) := fun _ arguments s =>
  match arguments[1]?.bind Command.ofWord? with
  | none => (.error .notFound, s)
  | some c =>
    let ends := (r.completions.filter (·.1 == c)).map fun e => some e.2
    match nthOrLast ends (s.count c) none with
    | none => (.error .notFound, s)
    | some completion => (.ok completion, s ++ [c])

end Recording

namespace Rehearsal

/-- Why the configuration file could not be read. -/
def faultOf : IO.Error → SystemFault
  | .noFileOrDirectory .. => .notFound
  | .permissionDenied .. => .denied
  | .inappropriateType .. => .isFolder
  | e => .other e.toString

def contentOf (path : List UInt8) : IO (Except SystemFault (List UInt8)) := do
  try
    let bytes ← IO.FS.readBinFile (String.ofList (Text.Utf8.decodeLossy path))
    return .ok bytes.toList
  catch e => return .error (faultOf e)

partial def readLines (input : IO.FS.Stream) (lines : List (List Char)) :
    IO (List (List Char)) := do
  let line ← input.getLine
  if line.isEmpty then return lines.reverse
  readLines input ((Text.joinLines line.toList) :: lines)

def printBytes (bytes : List UInt8) : IO Unit := do
  (← IO.getStdout).write (ByteArray.mk bytes.toArray)

def levelName : Level → String
  | .debug => "DEBUG"
  | .info => "INFO"
  | .warn => "WARN"

def printNotice (n : Notice) : IO Unit :=
  IO.eprintln (levelName n.level ++ " " ++ n.message ++
    String.join (n.fields.map fun f => " " ++ f.1 ++ "=" ++ f.2))

def randomSeed : IO UInt64 := do
  let bytes ← IO.getRandomBytes 8
  return bytes.toList.foldl (fun n b => n * 256 + b.toUInt64) 0

def bytesOfVariable (name : String) : IO (Option (List UInt8)) := do
  return (← IO.getEnv name).map fun v => Text.Utf8.encode v.toList

/-- Reports an outcome that took some time, and gives the exit code. -/
def conclude {σ : Type} (o : Program.Outcome σ) (elapsed : Elapsed) : IO UInt32 := do
  let closing := o.closing elapsed
  (o.trace ++ closing).log.forM printNotice
  printBytes (o.output ++ closing.output)
  match o.verdict with
  | .failed f => IO.eprintln ("Error: " ++ f.message)
  | .halted (.complaint c) => IO.eprintln c.printed
  | _ => pure ()
  return o.verdict.exitCode.toUInt32

end Rehearsal

end PaymentDrill

open PaymentDrill Rehearsal in
def main (words : List String) : IO UInt32 := do
  let words := words.map fun w => Text.Utf8.encode w.toList
  let environment : CommandLine.Environment :=
    ⟨← bytesOfVariable "AUTOTX_CONFIG", ← bytesOfVariable "AUTOTX_WALLET_CLI"⟩
  let content ← match Program.configPath? words environment with
    | some path => contentOf path
    | none => pure (.error .notFound)
  let recording ← match content with
    | .ok _ => readLines (← IO.getStdin) []
    | .error _ => pure []
  let a : Program.Surroundings (List Command) :=
    { words, environment
      content := fun _ => content
      host := (Recording.ofLines recording).host
      fresh := Keystream.ofSeed (← randomSeed) }
  let start ← IO.monoNanosNow
  match Program.run a [] with
  | .error .infiniteCeiling =>
    IO.eprintln "no random amount is below an infinite ceiling"
    return 101
  | .error .endless =>
    IO.eprintln "the drill would not come to an end"
    return 101
  | .ok o =>
    let nanoseconds := (← IO.monoNanosNow) - start
    conclude o ⟨nanoseconds / 1000000000, nanoseconds % 1000000000⟩
