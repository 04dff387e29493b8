import PaymentDrill.Proofs.Arguments
import PaymentDrill.Proofs.Simulation

/-!
# Scripts of stand-ins

A stand-in answers as a script does, so a session cannot tell the one from the other. What it
adds is of no concern to the session: it keeps the arguments of each start, and it prints
something of its own for each send. Its starts are the calls of the session, and what it prints
stands in front of the lines of the payments.
-/
namespace PaymentDrill

namespace Session

variable {σ : Type} {config : Config} {order : Order} {w : Wallet σ} {capacity : Capacity}
  {s : Drill.State σ} {o : Outcome σ}

/-- A session that fails has not got beyond its opening. -/
lemma early_of_error {f : Failure} (h : run config order w capacity s = .ok o)
    (hf : o.result = .error f) : (∃ b, o.trace <+: opening config w s b) ∧
      o.state.walletAndFlag = s.walletAndFlag.replay w o.trace.calls := by
  rcases run_eq_ok h with ⟨f', -, hob⟩ | ⟨d, b, r, -, -, rfl⟩
  · obtain ⟨o', ho', stopped⟩ := stopped_of_obstacle hob
    cases Except.ok.inj (h.symm.trans ho')
    refine ⟨stopped.trace, ?_⟩
    rcases stopped.state with ⟨hcalls, hstate⟩ | ⟨hcalls, hstate⟩
    · rw [hcalls, hstate]
      rfl
    · rw [hcalls, hstate]
      rfl
  · cases hf

/-- The wallet and the flag end a session as its calls have left them. -/
lemma walletAndFlag_of_run (h : run config order w capacity s = .ok o) :
    o.state.walletAndFlag = s.walletAndFlag.replay w o.trace.calls := by
  rcases run_eq_ok h with ⟨f, hf, -⟩ | ⟨d, b, r, -, hr, rfl⟩
  · exact (early_of_error h hf).2
  · rw [Trace.calls_append, calls_opening, Drill.WalletAndFlag.replay_append]
    exact Drill.walletAndFlag_of_run hr

end Session

namespace Standin

open Drill

variable {w : Standin} {dir : Directory} {path : List (List UInt8)} {name : String} {d : Drill}

/-- What a drill can hand to a wallet program. -/
structure Hands (d : Drill) : Prop where
  account : WalletProgram.hasNul d.plan.account = false
  addresses : ∀ address ∈ d.plan.addresses, WalletProgram.hasNul address = false

lemma Hands.plain (h : Hands d) {p : Payment} (hp : p.address ∈ d.plan.addresses) :
    (Event.send (d.transfer p)).Plain := plain_send h.account (h.addresses _ hp)

/-- A stand-in that interrupts at most once never tells of a second interrupt. -/
lemma unaborted (hstart : startable dir path name = .ok ()) (hands : Hands d)
    (once : w.interruptAt = none ∨ w.insistent = false) :
    d.Unaborted (w.wallet dir path name) where
  balances := by
    intro x
    rw [balances_wallet hstart]
    dsimp only
    split_ifs <;> simp
  send := by
    intro p x hp
    rw [send_wallet hstart (hands.plain hp)]
    dsimp only [interruptNotices]
    rcases once with never | gentle
    · simp [never]
    · simp [gentle]

/-- The answers that the stand-in gives. -/
def script (w : Standin) : Script where
  balances := (if w.balances = [] then [[]] else w.balances).map fun bytes =>
    .text (Text.Utf8.decodeLossy bytes)
  sends := w.sendExits.map fun e => .code e.code
  unlock := .code w.unlockExit.code
  interruptsAtQuery := []
  interruptsAtSend := []
  userAtSend := w.interruptAt

/-- The stand-in and its script have been asked equally often. -/
structure Level (s : State) (c : Script.Counters) : Prop where
  queries : s.queries = c.queries
  sends : s.sends = c.sends

section Sessions

variable {config : Config} {order : Order}

variable {s : Drill.State State} {o : Session.Outcome State}

lemma output_opening (hstart : startable dir path name = .ok ()) (plain : config.Plain)
    (b : Balances) :
    (Session.opening config (w.wallet dir path name) s b).output = [] := by
  have queried : Trace.output ((w.wallet dir path name).balances s.wallet).events = [] := by
    rw [Reply.output_events, balances_wallet hstart]
  have unlocked (x : State) :
      Trace.output ((w.wallet dir path name).unlock config.password x).events = [] := by
    rw [Reply.output_events, unlock_wallet hstart (plain_unlock plain.password)]
  unfold Trace.output at queried unlocked
  simp [Session.opening, Trace.output, Event.output, queried, unlocked]

end Sessions

end Standin

end PaymentDrill
