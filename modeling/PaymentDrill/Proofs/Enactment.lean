import PaymentDrill.Program
import PaymentDrill.Proofs.Cutoff
import PaymentDrill.Proofs.Scripted

/-!
# Programs that hold sessions

The program from its command line to its exit code, against the session that it holds. The
wallet of the program is a stand-in that is started once for each request; the wallet of the
session is a script with the answers that the stand-in gives. What the stand-in is started
with, what stands on the screen and how the program ends can be read off the session.
-/
namespace PaymentDrill

namespace Program

open Standin

variable {w : Standin} {dir : Directory} {path : List (List UInt8)} {a : Surroundings State}
  {i : CommandLine.Invocation} {config : Config}

/-- Nothing but notices is put in front of a session, and none of them is of an interrupt. -/
structure Preface (t : Trace) : Prop where
  output : t.output = []
  unaborted : .noted .interruptedAgain ∉ t

lemma Preface.append {t u : Trace} (ht : Preface t) (hu : Preface u) : Preface (t ++ u) where
  output := by rw [Trace.output_append, ht.output, hu.output, List.append_nil]
  unaborted := by
    rw [List.mem_append, not_or]
    exact ⟨ht.unaborted, hu.unaborted⟩

def bytes (text : String) : List UInt8 := Text.Utf8.encode text.toList

/-- A wallet program whose second send fails, and which interrupts the drill meanwhile. Its query is
killed, and what its first send prints is no text. -/
def till : Standin where
  balances := [bytes "\x7b\"balances\":[[\"x\",100]]\x7d"]
  queryExits := [.signal 9]
  balancesExit := .status 0
  unlockOutput := bytes "unlocked\n"
  unlockExit := .status 3
  sendExits := [.status 0, .status 1]
  sendOutputs := [[0xFF] ++ bytes "paid\n"]
  noisy := true
  interruptAt := some 2
  insistent := false

def shop : Directory := .ofEntries [(bytes "bin/till", .file [] true)]

end Program

end PaymentDrill
