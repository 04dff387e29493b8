import PaymentDrill.Proofs.Interruption
import PaymentDrill.Proofs.Screen

/-!
# Wallets in each other's place

Two wallets that a drill cannot tell apart. It looks at three things in a reply: the balances
or the code that the reply comes to, and whether an interrupt has come with it. Where these
agree, reply after reply, the drills agree in everything but their words, and so do sessions.
A send that could not be started and one that came back with -1 come to the same code.
-/
namespace PaymentDrill

/-- Two computations that get stuck in the same way or return what belongs together. -/
inductive Both {ε α β : Type} (Q : α → β → Prop) : Except ε α → Except ε β → Prop
  | error (e : ε) : Both Q (.error e) (.error e)
  | ok {a : α} {b : β} (h : Q a b) : Both Q (.ok a) (.ok b)

namespace Both

variable {ε α β : Type} {Q : α → β → Prop} {x : Except ε α} {y : Except ε β}

lemma error_or_ok (h : Both Q x y) :
    (∃ e, x = .error e ∧ y = .error e) ∨ ∃ a b, x = .ok a ∧ y = .ok b ∧ Q a b := by
  cases h with
  | error e => exact .inl ⟨e, rfl, rfl⟩
  | ok h => exact .inr ⟨_, _, rfl, rfl, h⟩

lemma mono {P : α → β → Prop} (h : Both Q x y)
    (himp : ∀ a b, x = .ok a → y = .ok b → Q a b → P a b) : Both P x y := by
  cases h with
  | error e => exact .error e
  | ok h => exact .ok (himp _ _ rfl rfl h)

/-- To show something of both computations, it is enough to show it of what they come to. -/
@[elab_as_elim]
lemma elim {motive : Except ε α → Except ε β → Prop} (h : Both Q x y)
    (error : ∀ e, motive (.error e) (.error e))
    (ok : ∀ a b, x = .ok a → y = .ok b → Q a b → motive (.ok a) (.ok b)) : motive x y := by
  cases h with
  | error e => exact error e
  | ok h => exact ok _ _ rfl rfl h

lemma trans {γ : Type} {z : Except ε γ} {P : β → γ → Prop} {S : α → γ → Prop} (h : Both Q x y)
    (h' : Both P y z) (himp : ∀ a b c, Q a b → P b c → S a c) : Both S x z := by
  cases h with
  | error e =>
    cases h'
    exact .error e
  | ok h =>
    cases h' with
    | ok h' => exact .ok (himp _ _ _ h h')

end Both

variable {σ τ : Type} {R : σ → τ → Prop}

/-- Two replies that come to the same, for one that looks at results by way of `f` only. -/
structure Reply.Alike {α β : Type} (R : σ → τ → Prop) (f : Except Failure α → β)
    (r : Reply σ α) (r' : Reply τ α) : Prop where
  result : f r.result = f r'.result
  state : R r.state r'.state
  interrupt : r.interrupt = r'.interrupt

namespace Drill

variable {d : Drill} {w : Wallet σ} {v : Wallet τ} {s : State σ} {t : State τ}

structure State.Alike (R : σ → τ → Prop) (s : State σ) (t : State τ) : Prop where
  stream : s.stream = t.stream
  wallet : R s.wallet t.wallet
  stop : s.stop = t.stop

lemma State.Alike.after {α β : Type} {f : Except Failure α → β} {r : Reply σ α} {r' : Reply τ α}
    (hs : s.Alike R t) (hr : r.Alike R f r') : (s.after r).Alike R (t.after r') where
  stream := hs.stream
  wallet := hr.state
  stop := congrArg₂ or hs.stop hr.interrupt

/-- A drill cannot tell one wallet from the other, as long as it pays to its addresses. -/
structure Simulates (d : Drill) (w : Wallet σ) (v : Wallet τ) (R : σ → τ → Prop) : Prop where
  balances : ∀ s t, R s t → (w.balances s).Alike R id (v.balances t)
  send : ∀ p s t, p.address ∈ d.plan.addresses → R s t →
    (w.send (d.transfer p) s).Alike R codeOf (v.send (d.transfer p) t)

structure Attempt.Alike (R : σ → τ → Prop) (a : Attempt σ) (b : Attempt τ) : Prop where
  verdict : a.verdict = b.verdict
  checked : a.checked.Alike R b.checked
  code : a.code = b.code
  settled : a.settled.Alike R b.settled
  query : a.query.calls = b.query.calls
  trace : a.trace.calls = b.trace.calls

/-- Runs that agree in all but their words. -/
structure Run.Alike (R : σ → τ → Prop) (r : Run σ) (r' : Run τ) : Prop where
  tally : r.tally = r'.tally
  ending : r.ending = r'.ending
  state : r.state.Alike R r'.state
  calls : r.trace.calls = r'.trace.calls

lemma checked_alike (h : d.Simulates w v R) (hs : s.Alike R t) (p : Payment) (stream : Keystream) :
    (d.tried w s p stream).checked.Alike R (d.tried v t p stream).checked := by
  have hs' : State.Alike R { s with stream } { t with stream } := ⟨rfl, hs.wallet, hs.stop⟩
  simp only [tried, check_eq]
  split_ifs
  · exact hs'.after (h.balances _ _ hs.wallet)
  · exact hs'

lemma tried_settled_eq (d : Drill) (w : Wallet σ) (s : State σ) (p : Payment)
    (stream : Keystream) : (d.tried w s p stream).settled =
      (d.tried w s p stream).checked.after
        (w.send (d.transfer p) (d.tried w s p stream).checked.wallet) := by
  simp only [tried, send_eq]

lemma tried_alike (h : d.Simulates w v R) (hs : s.Alike R t) {p : Payment}
    (hp : p.address ∈ d.plan.addresses) (stream : Keystream) :
    (d.tried w s p stream).Alike R (d.tried v t p stream) := by
  have checked := checked_alike h hs p stream
  have reply := h.send p _ _ hp checked.wallet
  have code : (d.tried w s p stream).code = (d.tried v t p stream).code := by
    rw [tried_code_eq, tried_code_eq, reply.result]
  refine ⟨?_, checked, code, ?_, ?_, ?_⟩
  · have answer : (w.balances s.wallet).result = (v.balances t.wallet).result :=
      (h.balances _ _ hs.wallet).result
    rw [tried_verdict, tried_verdict, answer]
  · rw [tried_settled_eq, tried_settled_eq]
    exact checked.after reply
  · rw [tried_query_calls, tried_query_calls]
  · rw [tried_trace_calls, tried_trace_calls, code]

/-- One turn of the loop after the other, the drills agree. -/
theorem loop_alike (h : d.Simulates w v R) (hs : s.Alike R t) (left index : Nat) :
    Both (Run.Alike R) (d.loop w left index s) (d.loop v left index t) := by
  induction left generalizing index s t with
  | zero => exact .ok ⟨rfl, rfl, hs, rfl⟩
  | succ left ih =>
    rw [loop_succ, loop_succ, ← hs.stop]
    split_ifs with up
    · exact .ok ⟨rfl, rfl, hs, rfl⟩
    unfold attempt
    rw [← hs.stream]
    cases chosen : Payment.choose d.plan.addresses d.plan.ceiling index s.stream with
    | error e => exact .error e
    | ok x =>
      obtain ⟨p, stream⟩ := x
      have alike := tried_alike h hs (Payment.mem_of_choose chosen) stream
      dsimp only
      rw [← alike.verdict, ← alike.code]
      cases (d.tried w s p stream).verdict with
      | some ending => exact .ok ⟨rfl, rfl, alike.checked, alike.query⟩
      | none =>
        dsimp only
        split_ifs with failed
        · exact .ok ⟨rfl, rfl, alike.settled, by simp [alike.trace]⟩
        refine (ih alike.settled (index + 1)).elim .error fun r r' _ _ rest => ?_
        exact .ok ⟨by rw [rest.tally], rest.ending, rest.state,
          by rw [Trace.calls_append, Trace.calls_append, alike.trace, rest.calls]⟩

lemma closed_alike {r : Run σ} {r' : Run τ} (h : r.Alike R r') :
    (d.closed r).Alike R (d.closed r') :=
  ⟨h.tally, h.ending, h.state, by simp [closed, h.calls]⟩

theorem run_alike (h : d.Simulates w v R) (hs : s.Alike R t) (limit : Limit) :
    Both (Run.Alike R) (d.run w limit s) (d.run v limit t) := by
  cases limit with
  | count n =>
    rw [run_count, run_count]
    exact (loop_alike h hs n 0).elim .error fun _ _ _ _ alike => .ok (closed_alike alike)
  | unbounded =>
    rw [run_unbounded, run_unbounded]
    refine (loop_alike h hs horizon 0).elim .error fun c c' _ _ alike => ?_
    dsimp only
    rw [← alike.ending]
    split_ifs
    · exact .error _
    · exact .ok (closed_alike alike)

end Drill

namespace Session

variable {config : Config} {order : Order} {w : Wallet σ} {v : Wallet τ} {s : Drill.State σ}
  {t : Drill.State τ}

/-- A session cannot tell one wallet from the other, and neither can any drill that it leads to. -/
structure Simulates (config : Config) (order : Order) (w : Wallet σ) (v : Wallet τ)
    (R : σ → τ → Prop) : Prop where
  balances : ∀ s t, R s t → (w.balances s).Alike R id (v.balances t)
  unlock : ∀ s t, R s t →
    (w.unlock config.password s).Alike R id (v.unlock config.password t)
  drill : ∀ balance d, prepare config order balance = .ok d → d.Simulates w v R

/-- Outcomes that agree in all but their words. -/
structure Outcome.Alike (R : σ → τ → Prop) (o : Outcome σ) (o' : Outcome τ) : Prop where
  result : o.result = o'.result
  written : o.written = o'.written
  state : o.state.Alike R o'.state
  calls : o.trace.calls = o'.trace.calls
  money : .line Drill.noMoney ∈ o.trace ↔ .line Drill.noMoney ∈ o'.trace

theorem run_alike (h : Simulates config order w v R) (capacity : Capacity) (hs : s.Alike R t) :
    Both (Outcome.Alike R) (run config order w capacity s) (run config order v capacity t) := by
  have asked := h.balances _ _ hs.wallet
  have answer : (w.balances s.wallet).result = (v.balances t.wallet).result := asked.result
  have queried := hs.after asked
  unfold run
  rw [Drill.ask_eq, Drill.ask_eq, ← answer]
  cases (w.balances s.wallet).result with
  | error e => exact .ok ⟨rfl, rfl, queried, by simp [Trace.calls_cons], by simp⟩
  | ok b =>
    dsimp only
    cases prepared : prepare config order (b.spendable? config.account) with
    | error e => exact .ok ⟨rfl, rfl, queried, by simp [Trace.calls_cons], by simp⟩
    | ok d =>
      have opens := h.unlock _ _ queried.wallet
      have unlocking := opens.result
      simp only [id_eq] at unlocking
      have unlocked := queried.after opens
      dsimp only
      rw [Drill.ask_eq, Drill.ask_eq, ← unlocking]
      cases (w.unlock config.password (s.after (w.balances s.wallet)).wallet).result with
      | error e => exact .ok ⟨rfl, rfl, unlocked, by simp [Trace.calls_cons], by simp⟩
      | ok code =>
        dsimp only
        rcases capacity.write (header order.count) with ⟨written, _ | _⟩
        · exact .ok ⟨rfl, rfl, unlocked, by simp [Trace.calls_cons], by simp⟩
        · have drills := Drill.run_alike (h.drill _ d prepared) unlocked (Limit.ofCount order.count)
          refine drills.elim .error fun r r' hr hr' alike => ?_
          exact .ok ⟨congrArg Except.ok alike.tally, rfl, alike.state,
            by simp [Trace.calls_cons, alike.calls],
            by simp [Drill.noMoney_mem_iff hr, Drill.noMoney_mem_iff hr', alike.ending]⟩

end Session

end PaymentDrill
