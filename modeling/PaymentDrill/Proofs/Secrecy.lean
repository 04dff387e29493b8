import PaymentDrill.Proofs.Enactment
import PaymentDrill.Proofs.Simulation

/-!
# Secrecy of the password

The password goes to the wallet and nowhere else. A wallet is discreet about two passwords
if what it answers, notes, prints and interrupts is the same for both, now and later; it may
well keep the password it was given. Two sessions with such a wallet that differ in the
password alone then differ in one word of their traces alone, the one that the wallet is
unlocked with, and in nothing that anybody else gets to see.
-/
namespace PaymentDrill

variable {σ : Type} {R : σ → σ → Prop}

/-- Two replies that are the same word for word, from states that belong together to such states. -/
structure Reply.Same {α : Type} (R : σ → σ → Prop) (r r' : Reply σ α) : Prop where
  result : r.result = r'.result
  state : R r.state r'.state
  notices : r.notices = r'.notices
  passed : r.passed = r'.passed
  interrupt : r.interrupt = r'.interrupt

namespace Reply.Same

variable {α β : Type} {r r' : Reply σ α}

lemma events (h : r.Same R r') : r.events = r'.events := by
  rw [Reply.events, Reply.events, h.notices, h.passed]

lemma alike (h : r.Same R r') (f : Except Failure α → β) : r.Alike R f r' :=
  ⟨congrArg f h.result, h.state, h.interrupt⟩

end Reply.Same

/-- States that belong together answer queries and sends in the same way. -/
structure Wallet.Steady (w : Wallet σ) (R : σ → σ → Prop) : Prop where
  balances : ∀ s t, R s t → (w.balances s).Same R (w.balances t)
  send : ∀ x s t, R s t → (w.send x s).Same R (w.send x t)

/-- The wallet lets nobody know which one of two passwords it has been unlocked with. -/
structure Wallet.Discreet (w : Wallet σ) (p q : String) (R : σ → σ → Prop) : Prop
    extends w.Steady R where
  unlock : ∀ s t, R s t → (w.unlock p s).Same R (w.unlock q t)

namespace Drill

variable {d : Drill} {w : Wallet σ} {s t : State σ}

/-- Runs that agree word for word. -/
structure Run.Same (R : σ → σ → Prop) (r r' : Run σ) : Prop where
  tally : r.tally = r'.tally
  ending : r.ending = r'.ending
  state : r.state.Alike R r'.state
  trace : r.trace = r'.trace

lemma simulates_of_steady (h : w.Steady R) (d : Drill) : d.Simulates w w R where
  balances s t hs := (h.balances s t hs).alike id
  send p s t _ hs := (h.send (d.transfer p) s t hs).alike codeOf

lemma tried_query_same (h : w.Steady R) (hs : s.Alike R t) (d : Drill) (p : Payment)
    (stream : Keystream) : (d.tried w s p stream).query = (d.tried w t p stream).query := by
  have asked := h.balances _ _ hs.wallet
  rw [tried_query, tried_query]
  dsimp only
  rw [asked.result, asked.events]

lemma tried_trace_same (h : w.Steady R) (hs : s.Alike R t) (d : Drill) (p : Payment)
    (stream : Keystream) : (d.tried w s p stream).trace = (d.tried w t p stream).trace := by
  have checked := checked_alike (simulates_of_steady h d) hs p stream
  have sent := h.send (d.transfer p) _ _ checked.wallet
  rw [tried_trace_eq, tried_trace_eq, tried_code_eq, tried_code_eq, tried_query_same h hs,
    sent.result, sent.events]

/-- One turn of the loop after the other, the drills say the same. -/
theorem loop_same (h : w.Steady R) (hs : s.Alike R t) (d : Drill) (left index : Nat) :
    Both (Run.Same R) (d.loop w left index s) (d.loop w left index t) := by
  induction left generalizing index s t with
  | zero => exact .ok ⟨rfl, rfl, hs, rfl⟩
  | succ left ih =>
    rw [loop_succ, loop_succ, ← hs.stop]
    split_ifs with up
    · exact .ok ⟨rfl, rfl, hs, rfl⟩
    unfold attempt
    rw [← hs.stream]
    cases chosen : Payment.choose d.plan.addresses d.plan.ceiling index s.stream with
    | error e => exact .error e
    | ok x =>
      obtain ⟨p, stream⟩ := x
      have alike := tried_alike (simulates_of_steady h d) hs (Payment.mem_of_choose chosen) stream
      have query := tried_query_same h hs d p stream
      have trace := tried_trace_same h hs d p stream
      dsimp only
      rw [← alike.verdict, ← alike.code, ← query, ← trace]
      cases (d.tried w s p stream).verdict with
      | some ending => exact .ok ⟨rfl, rfl, alike.checked, rfl⟩
      | none =>
        dsimp only
        split_ifs with failed
        · exact .ok ⟨rfl, rfl, alike.settled, rfl⟩
        refine (ih alike.settled (index + 1)).elim .error fun r r' _ _ rest => ?_
        exact .ok ⟨by rw [rest.tally], rest.ending, rest.state, by rw [rest.trace]⟩

lemma closed_same {r r' : Run σ} (h : r.Same R r') (d : Drill) :
    (d.closed r).Same R (d.closed r') := by
  have closing : d.closing r = d.closing r' := by
    unfold Drill.closing
    rw [h.state.stop, h.tally]
  exact ⟨h.tally, h.ending, h.state, congrArg₂ _ h.trace closing⟩

theorem run_same (h : w.Steady R) (hs : s.Alike R t) (d : Drill) (limit : Limit) :
    Both (Run.Same R) (d.run w limit s) (d.run w limit t) := by
  cases limit with
  | count n =>
    rw [run_count, run_count]
    exact (loop_same h hs d n 0).elim .error fun _ _ _ _ same => .ok (closed_same same d)
  | unbounded =>
    rw [run_unbounded, run_unbounded]
    refine (loop_same h hs d horizon 0).elim .error fun c c' _ _ same => ?_
    dsimp only
    rw [← same.ending]
    split_ifs
    · exact .error _
    · exact .ok (closed_same same d)

end Drill

/-- Nothing in the trace is a password. -/
def Trace.Wordless (t : Trace) : Prop := ∀ word, .unlock word ∉ t

/-- Traces that are the same, but for the word of a single unlocking. -/
inductive Trace.Veiled (p q : String) : Trace → Trace → Prop
  | same {t : Trace} (wordless : t.Wordless) : Veiled p q t t
  | unlock {before after : Trace} (front : before.Wordless) (back : after.Wordless) :
      Veiled p q (before ++ .unlock p :: after) (before ++ .unlock q :: after)

namespace Trace

variable {t t' u : Trace} {p q : String}

lemma wordless_append (ht : t.Wordless) (hu : u.Wordless) : Wordless (t ++ u) := fun word h =>
  (List.mem_append.mp h).elim (ht word) (hu word)

lemma wordless_events {α : Type} (r : Reply σ α) : Wordless r.events := by
  intro word h
  unfold Reply.events at h
  split_ifs at h <;> simp at h

/-- A drill never unlocks the wallet. -/
lemma wordless_of_run {d : Drill} {w : Wallet σ} {limit : Limit} {s : Drill.State σ}
    {r : Drill.Run σ} (h : d.run w limit s = .ok r) : r.trace.Wordless := by
  intro word hword
  obtain ⟨left, -, ledger⟩ := Drill.ledger_of_run h
  have hcall : .unlock word ∈ r.trace.calls := List.mem_filter.mpr ⟨hword, rfl⟩
  cases ledger.isDrillCall _ hcall

/-- What is put out and what is noted does not show the password. -/
lemma Veiled.output (h : Veiled p q t t') : t.output = t'.output := by
  cases h with
  | same => rfl
  | unlock => simp [Trace.output, Event.output]

lemma Veiled.log (h : Veiled p q t t') : t.log = t'.log := by
  cases h with
  | same => rfl
  | unlock => simp [Trace.log, List.filterMap_cons, Event.notice?]

end Trace

namespace Session

/-- Outcomes that nobody but the wallet can tell apart. -/
structure Outcome.Veiled (p q : String) (R : σ → σ → Prop) (o o' : Outcome σ) : Prop where
  result : o.result = o'.result
  written : o.written = o'.written
  /-- The stream, the stop flag, and states of the wallet that belong together. -/
  state : o.state.Alike R o'.state
  output : o.trace.output = o'.trace.output
  log : o.trace.log = o'.trace.log
  trace : o.trace.Veiled p q o'.trace

lemma Outcome.Veiled.of_trace {p q : String} {o o' : Outcome σ} (result : o.result = o'.result)
    (written : o.written = o'.written) (state : o.state.Alike R o'.state)
    (trace : o.trace.Veiled p q o'.trace) : o.Veiled p q R o' :=
  ⟨result, written, state, trace.output, trace.log, trace⟩

variable {config : Config} {q : String} {w : Wallet σ} {s t : Drill.State σ}

/-- Two sessions that differ in their passwords alone, before a discreet wallet, come to the same
end on every path, with the same effects on everything but the wallet. -/
theorem run_veiled (h : w.Discreet config.password q R) (order : Order) (capacity : Capacity)
    (hs : s.Alike R t) :
    Both (Outcome.Veiled config.password q R) (run config order w capacity s)
      (run { config with password := q } order w capacity t) := by
  have asked := h.balances _ _ hs.wallet
  have queried := hs.after (asked.alike id)
  have front : Trace.Wordless (.balances :: (w.balances s.wallet).events) := fun word hword =>
    (List.mem_cons.mp hword).elim (fun heq => nomatch heq) (Trace.wordless_events _ word)
  have same : ∀ balance, prepare { config with password := q } order balance =
    prepare config order balance := fun _ => rfl
  unfold run
  rw [Drill.ask_eq, Drill.ask_eq, ← asked.result, ← asked.events]
  cases (w.balances s.wallet).result with
  | error e => exact .ok (.of_trace rfl rfl queried (.same front))
  | ok b =>
    dsimp only
    have noted : Trace.Wordless ((.balances :: (w.balances s.wallet).events) ++
        [.noted (balanceNotice config.account (b.spendable? config.account))]) :=
      Trace.wordless_append front (fun word hword => by simp at hword)
    rw [same]
    cases prepare config order (b.spendable? config.account) with
    | error e => exact .ok (.of_trace rfl rfl queried (.same noted))
    | ok d =>
      have opens := h.unlock _ _ queried.wallet
      have unlocked := queried.after (opens.alike id)
      have told := Trace.wordless_events (w.unlock config.password
        (s.after (w.balances s.wallet)).wallet)
      dsimp only
      rw [Drill.ask_eq, Drill.ask_eq, ← opens.result, ← opens.events]
      cases (w.unlock config.password (s.after (w.balances s.wallet)).wallet).result with
      | error e => exact .ok (.of_trace rfl rfl unlocked (.unlock noted told))
      | ok code =>
        dsimp only
        rcases capacity.write (header order.count) with ⟨written, _ | _⟩
        · exact .ok (.of_trace rfl rfl unlocked (.unlock noted told))
        · have drills := Drill.run_same h.toSteady unlocked d (Limit.ofCount order.count)
          refine drills.elim .error fun r r' hr _ rest => ?_
          refine .ok (.of_trace (congrArg Except.ok rest.tally) rfl rest.state ?_)
          have veiled := Trace.Veiled.unlock (p := config.password) (q := q) noted
            (Trace.wordless_append told (Trace.wordless_of_run hr))
          rw [← rest.trace]
          simpa only [List.append_assoc, List.cons_append] using veiled

end Session

namespace WalletProgram

/-- What comes back is the same, and the states behind it belong together. -/
def Equal {α : Type} (R : σ → σ → Prop) (x y : α × σ) : Prop := x.1 = y.1 ∧ R x.2 y.2

@[elab_as_elim]
lemma Equal.elim {α : Type} {x y : α × σ} {motive : α × σ → α × σ → Prop} (h : Equal R x y)
    (same : ∀ a u v, R u v → motive (a, u) (a, v)) : motive x y := by
  obtain ⟨a, u⟩ := x
  obtain ⟨b, v⟩ := y
  obtain ⟨rfl, huv⟩ : a = b ∧ R u v := h
  exact same a u v huv

/-- Starts come to the same from states that belong together, and so do the starts that unlock the
wallet with one password and with the other. -/
structure Indifferent (program : WalletProgram) (host : Host σ) (p q : String)
    (R : σ → σ → Prop) : Prop where
  nul : hasNul p = hasNul q
  starts : ∀ words s t, R s t →
    Equal R (host program.program words s) (host program.program words t)
  unlock : ∀ s t, R s t →
    Equal R (host program.program (program.arguments .unlock (unlockOperands p)) s)
      (host program.program (program.arguments .unlock (unlockOperands q)) t)

variable {program : WalletProgram} {host : Host σ} {p q : String} {s t : σ}

/-- What is said of a start that fails names the program and the command, but no operand. -/
lemma start_equal (hs : R s t) (command : Command) (operands operands' : List String)
    (nul : operands.any hasNul = operands'.any hasNul)
    (same : Equal R (host program.program (program.arguments command operands) s)
      (host program.program (program.arguments command operands') t)) :
    Equal R (program.start host command operands s) (program.start host command operands' t) := by
  have nul' : (program.program :: program.arguments command operands).any hasNul =
      (program.program :: program.arguments command operands').any hasNul := by
    simp only [arguments, List.any_cons, List.any_append, nul]
  unfold start
  dsimp only
  rw [← nul']
  split_ifs
  · exact ⟨rfl, hs⟩
  · refine same.elim fun a u v huv => ?_
    cases a <;> exact ⟨rfl, huv⟩

/-- A wallet program says nothing of the password itself. -/
theorem discreet_wallet (h : program.Indifferent host p q R) :
    (program.wallet host).Discreet p q R where
  balances s t hs := by
    have same := start_equal hs .getBalance [] [] rfl (h.starts _ s t hs)
    simp only [wallet, balances]
    refine same.elim fun a u v huv => ?_
    cases a <;> exact ⟨rfl, huv, rfl, rfl, rfl⟩
  send x s t hs := by
    have same := start_equal hs .send (sendOperands x) _ rfl (h.starts _ s t hs)
    simp only [wallet, send]
    refine same.elim fun a u v huv => ?_
    cases a <;> exact ⟨rfl, huv, rfl, rfl, rfl⟩
  unlock s t hs := by
    have hnul : (unlockOperands p).any hasNul = (unlockOperands q).any hasNul := by
      simp [unlockOperands, h.nul]
    have same := start_equal hs .unlock (unlockOperands p) (unlockOperands q) hnul
      (h.unlock s t hs)
    simp only [wallet, WalletProgram.unlock]
    refine same.elim fun a u v huv => ?_
    cases a <;> exact ⟨rfl, huv, rfl, rfl, rfl⟩

end WalletProgram

/-- What becomes of a password. -/
structure PasswordKept : Prop where
  /-- Before a discreet wallet, two sessions that differ in their passwords alone come to the same
  end on every path. -/
  session : ∀ (σ : Type) (R : σ → σ → Prop) (w : Wallet σ) config q order capacity
    (s t : Drill.State σ), w.Discreet config.password q R → s.Alike R t →
      Both (Session.Outcome.Veiled config.password q R) (Session.run config order w capacity s)
        (Session.run { config with password := q } order w capacity t)
  /-- A wallet program is as discreet as the program that is started for it. -/
  program : ∀ (σ : Type) (R : σ → σ → Prop) (host : Host σ) (program : WalletProgram) p q,
    program.Indifferent host p q R → (program.wallet host).Discreet p q R

theorem password_kept : PasswordKept where
  session _ _ _ _ _ order capacity _ _ h hs := Session.run_veiled h order capacity hs
  program _ _ _ _ _ _ := WalletProgram.discreet_wallet

namespace Standin

/-- States that differ at most in the arguments that were kept. -/
def Counted (s t : State) : Prop := s.queries = t.queries ∧ s.sends = t.sends

variable {w : Standin} {s t : State}

/-- Whatever the arguments behind the command are, a stand-in answers in the same way. -/
lemma answer_counted {words words' : List String} (hs : Counted s t)
    (same : words[1]? = words'[1]?) :
    WalletProgram.Equal Counted (w.answer words s) (w.answer words' t) := by
  obtain ⟨queries, sends⟩ := hs
  unfold answer
  rw [← same]
  cases words[1]? with
  | none => exact ⟨rfl, queries, sends⟩
  | some word =>
    dsimp only
    rw [queries, sends]
    split_ifs <;> exact ⟨rfl, rfl, rfl⟩

lemma host_counted {d : Directory} {path : List (List UInt8)} {words words' : List String}
    (program : String) (hs : Counted s t) (same : words[1]? = words'[1]?) :
    WalletProgram.Equal Counted (w.host d path program words s)
      (w.host d path program words' t) := by
  unfold host
  cases d.program path (Text.Utf8.encode program.toList) with
  | error f => exact ⟨rfl, hs⟩
  | ok =>
    obtain ⟨answers, counted⟩ := answer_counted (w := w) hs same
    exact ⟨congrArg Except.ok answers, counted⟩

/-- A stand-in may keep the password, but does not answer by it. -/
lemma indifferent (w : Standin) (d : Directory) (path : List (List UInt8)) (name : String)
    {p q : String} (nul : WalletProgram.hasNul p = WalletProgram.hasNul q) :
    (WalletProgram.named name).Indifferent (w.host d path) p q Counted where
  nul := nul
  starts _ _ _ hs := host_counted _ hs rfl
  unlock _ _ hs := host_counted _ hs rfl

end Standin

namespace Program

open Standin

/-- The session of a till that is unlocked with a password. -/
def unlockedWith (password : String) : Except Stuck (Session.Outcome State) :=
  Session.run { Session.kiosk with password } ⟨9, false, false⟩
    (till.wallet shop [bytes "bin"] "till") .unbounded ⟨Keystream.ofSeed 42, .start, false⟩

/-- A till that is told another password keeps another word, and nobody sees any more of it. -/
theorem till_veiled : ∃ o o', unlockedWith "pw" = .ok o ∧ unlockedWith "hunter2" = .ok o' ∧
    o.Veiled "pw" "hunter2" Counted o' ∧
      o.state.wallet.calls[1]? = some ["--wallet", "walletpassphrase", "pw", "0"] ∧
      o'.state.wallet.calls[1]? = some ["--wallet", "walletpassphrase", "hunter2", "0"] := by
  have discreet : (till.wallet shop [bytes "bin"] "till").Discreet "pw" "hunter2" Counted :=
    password_kept.program _ _ _ _ _ _ (till.indifferent shop [bytes "bin"] "till" (by decide))
  have both : Both (Session.Outcome.Veiled "pw" "hunter2" Counted) (unlockedWith "pw")
      (unlockedWith "hunter2") :=
    password_kept.session _ _ _ Session.kiosk _ _ _ _ _ discreet ⟨rfl, ⟨rfl, rfl⟩, rfl⟩
  obtain ⟨o, ho, hcall⟩ : ∃ o, unlockedWith "pw" = .ok o ∧
      o.state.wallet.calls[1]? = some ["--wallet", "walletpassphrase", "pw", "0"] :=
    Drill.exists_ok_of_toOption (f := fun o : Session.Outcome State => o.state.wallet.calls[1]?)
      (by decide +kernel)
  obtain ⟨o', ho', hcall'⟩ : ∃ o, unlockedWith "hunter2" = .ok o ∧
      o.state.wallet.calls[1]? = some ["--wallet", "walletpassphrase", "hunter2", "0"] :=
    Drill.exists_ok_of_toOption (f := fun o : Session.Outcome State => o.state.wallet.calls[1]?)
      (by decide +kernel)
  rw [ho, ho'] at both
  cases both with
  | ok veiled => exact ⟨o, o', ho, ho', veiled, hcall, hcall'⟩

end Program

end PaymentDrill
