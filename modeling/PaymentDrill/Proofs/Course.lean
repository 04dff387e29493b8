import Mathlib.Tactic.SplitIfs
import PaymentDrill.Drill
import PaymentDrill.Proofs.Series

/-!
# Courses of a drill

The loop of a drill as a relation. One turn of the loop is an attempt: a payment is
chosen, the balance is asked for if the plan says so, and the payment is sent. An
attempt is followed to its end even if the balance refuses it, so that it can be
spoken of before it is known whether the drill gets that far. A course is how a
drill comes to its end, turn by turn, and the loop computes exactly the courses.
-/
namespace PaymentDrill.Drill

variable {σ : Type}

/-- The state once a reply of the wallet is in. -/
def State.after {α : Type} (s : State σ) (r : Reply σ α) : State σ :=
  { s with wallet := r.state, stop := s.stop || r.interrupt }

theorem ask_eq {α : Type} (request : Event) (reply : σ → Reply σ α) (s : State σ) :
    ask request reply s =
      ((reply s.wallet).result, s.after (reply s.wallet), request :: (reply s.wallet).events) := rfl

/-- The code that a payment comes back with; -1 when the wallet could not be started. -/
def codeOf : Except Failure Int32 → Int32
  | .ok code => code
  | .error _ => -1

/-- What is noted of a send that could not be started. -/
def lapse (index : Nat) : Except Failure Int32 → Trace
  | .ok _ => []
  | .error e => [.noted (.sendNotRun index e)]

@[simp] theorem calls_lapse (index : Nat) (x : Except Failure Int32) :
    Trace.calls (lapse index x) = [] := by cases x <;> rfl

@[simp] theorem calls_report (p : Payment) (code : Int32) :
    Trace.calls (p.report code) = [.settled p code] := by
  unfold Payment.report
  split_ifs <;> rfl

theorem send_eq (d : Drill) (w : Wallet σ) (p : Payment) (s : State σ) :
    d.send w p s =
      let r := w.send (d.transfer p) s.wallet
      (codeOf r.result, s.after r,
        .send (d.transfer p) ::
          (r.events ++ lapse p.index r.result ++ p.report (codeOf r.result))) := by
  unfold send
  rw [ask_eq]
  dsimp only
  cases (w.send (d.transfer p) s.wallet).result <;> simp [codeOf, lapse]

/-- Why the answer to a query keeps a payment from being sent, if it does. -/
def verdict (d : Drill) (p : Payment) : Except Failure Balances → Option Ending
  | .ok b => if b.covers d.plan.account p.amount then none else some .short
  | .error _ => some .unknown

/-- What is said of an answer that keeps a payment from being sent. -/
def refusal (d : Drill) (p : Payment) : Except Failure Balances → Trace
  | .ok b => if b.covers d.plan.account p.amount then [] else [.line noMoney]
  | .error e => [.noted (.balanceCheckFailed e)]

@[simp] theorem calls_refusal (d : Drill) (p : Payment) (x : Except Failure Balances) :
    Trace.calls (d.refusal p x) = [] := by
  unfold refusal
  split
  · split_ifs <;> rfl
  · rfl

theorem check_eq (d : Drill) (w : Wallet σ) (p : Payment) (s : State σ) :
    d.check w p s =
      if d.plan.checkBalance then
        let r := w.balances s.wallet
        (d.verdict p r.result, s.after r, .balances :: (r.events ++ d.refusal p r.result))
      else (none, s, []) := by
  unfold check
  split_ifs with hb
  · rw [ask_eq]
    dsimp only
    cases (w.balances s.wallet).result with
    | error e => simp [verdict, refusal]
    | ok b =>
      by_cases hc : b.covers d.plan.account p.amount = true <;> simp [verdict, refusal, hc]
  · rfl

/-- A payment that is sent whatever the answer to the query before it. -/
structure Attempt (σ : Type) where
  payment : Payment
  /-- What the drill would have ended with instead of sending. -/
  verdict : Option Ending
  /-- The state between query and send. -/
  checked : State σ
  query : Trace
  code : Int32
  settled : State σ
  trace : Trace

/-- The attempt at a payment that has been chosen. -/
def tried (d : Drill) (w : Wallet σ) (s : State σ) (p : Payment) (stream : Keystream) : Attempt σ :=
  let c := d.check w p { s with stream }
  let r := d.send w p c.2.1
  ⟨p, c.1, c.2.1, c.2.2, r.1, r.2.1, c.2.2 ++ r.2.2⟩

/-- The attempt of an index, if a payment can be chosen. -/
def attempt (d : Drill) (w : Wallet σ) (index : Nat) (s : State σ) : Except Stuck (Attempt σ) :=
  match Payment.choose d.plan.addresses d.plan.ceiling index s.stream with
  | .error e => .error e
  | .ok (p, stream) => .ok (d.tried w s p stream)

theorem attempt_eq_ok_iff {d : Drill} {w : Wallet σ} {index : Nat} {s : State σ} {a : Attempt σ} :
    d.attempt w index s = .ok a ↔
      ∃ p stream, Payment.choose d.plan.addresses d.plan.ceiling index s.stream = .ok (p, stream) ∧
        a = d.tried w s p stream := by
  unfold attempt
  constructor
  · intro h
    split at h
    · cases h
    · rename_i p stream hp
      exact ⟨p, stream, hp, (Except.ok.inj h).symm⟩
  · rintro ⟨p, stream, hp, rfl⟩
    rw [hp]

/-- The queries in front of a send. -/
def queries (d : Drill) : List Event := if d.plan.checkBalance then [.balances] else []

/-- The calls of a payment that is sent: its queries, the send, and the settling with a code. -/
def exchange (d : Drill) (x : Payment × Int32) : List Event :=
  d.queries ++ [.send (d.transfer x.1), .settled x.1 x.2]

theorem tried_verdict (d : Drill) (w : Wallet σ) (s : State σ) (p : Payment)
    (stream : Keystream) : (d.tried w s p stream).verdict =
      if d.plan.checkBalance then d.verdict p (w.balances s.wallet).result else none := by
  simp only [tried, check_eq]
  split_ifs <;> rfl

theorem tried_query (d : Drill) (w : Wallet σ) (s : State σ) (p : Payment)
    (stream : Keystream) : (d.tried w s p stream).query =
      if d.plan.checkBalance then
        let r := w.balances s.wallet
        .balances :: (r.events ++ d.refusal p r.result)
      else [] := by
  simp only [tried, check_eq]
  split_ifs <;> rfl

@[simp] theorem tried_checked_stream (d : Drill) (w : Wallet σ) (s : State σ) (p : Payment)
    (stream : Keystream) : (d.tried w s p stream).checked.stream = stream := by
  simp only [tried, check_eq]
  split_ifs <;> rfl

@[simp] theorem tried_settled_stream (d : Drill) (w : Wallet σ) (s : State σ) (p : Payment)
    (stream : Keystream) : (d.tried w s p stream).settled.stream = stream := by
  have hc := tried_checked_stream d w s p stream
  simpa only [tried, send_eq, State.after] using hc

@[simp] theorem tried_query_calls (d : Drill) (w : Wallet σ) (s : State σ) (p : Payment)
    (stream : Keystream) : (d.tried w s p stream).query.calls = d.queries := by
  rw [tried_query, queries]
  split_ifs
  · simp [Trace.calls_cons, Event.isCall]
  · rfl

@[simp] theorem tried_trace_calls (d : Drill) (w : Wallet σ) (s : State σ) (p : Payment)
    (stream : Keystream) :
    (d.tried w s p stream).trace.calls = d.exchange (p, (d.tried w s p stream).code) := by
  have hq := tried_query_calls d w s p stream
  simp only [tried] at hq ⊢
  rw [Trace.calls_append, hq, send_eq, exchange]
  simp [Trace.calls_cons, Event.isCall]

/-- One turn of the loop, in terms of the attempt at its payment. -/
theorem loop_succ (d : Drill) (w : Wallet σ) (left index : Nat) (s : State σ) :
    d.loop w (left + 1) index s =
      if d.heedsStop && s.stop then .ok ⟨.zero, .stop, s, []⟩
      else match d.attempt w index s with
        | .error e => .error e
        | .ok a => match a.verdict with
          | some ending => .ok ⟨.zero, ending, a.checked, a.query⟩
          | none =>
            if a.code ≠ 0 ∧ d.plan.stopOnFailure then
              .ok ⟨Tally.zero.add a.code, .failure, a.settled,
                a.trace ++ [.noted (.stoppedAtFailure index a.code)]⟩
            else match d.loop w left (index + 1) a.settled with
              | .error e => .error e
              | .ok r =>
                .ok { r with tally := r.tally.add a.code, trace := a.trace ++ r.trace } := by
  rw [loop]
  split_ifs with hs
  · rfl
  · unfold attempt
    cases Payment.choose d.plan.addresses d.plan.ceiling index s.stream with
    | error e => rfl
    | ok r =>
      obtain ⟨p, stream⟩ := r
      dsimp only [tried, round]
      obtain ⟨_ | ending, t⟩ := d.check w p { s with stream } <;> rfl

/-- A course goes on for at most a number of payments, from an index and a state. -/
inductive Course (d : Drill) (w : Wallet σ) : Nat → Nat → State σ → Run σ → Prop
  | limit {index : Nat} {s : State σ} : Course d w 0 index s ⟨.zero, .limit, s, []⟩
  | stop {left index : Nat} {s : State σ} (up : (d.heedsStop && s.stop) = true) :
      Course d w (left + 1) index s ⟨.zero, .stop, s, []⟩
  | refused {left index : Nat} {s : State σ} {a : Attempt σ} {ending : Ending}
      (down : (d.heedsStop && s.stop) = false) (tries : d.attempt w index s = .ok a)
      (verdict : a.verdict = some ending) :
      Course d w (left + 1) index s ⟨.zero, ending, a.checked, a.query⟩
  | failed {left index : Nat} {s : State σ} {a : Attempt σ}
      (down : (d.heedsStop && s.stop) = false) (tries : d.attempt w index s = .ok a)
      (verdict : a.verdict = none) (failure : a.code ≠ 0) (stops : d.plan.stopOnFailure = true) :
      Course d w (left + 1) index s ⟨Tally.zero.add a.code, .failure, a.settled,
        a.trace ++ [.noted (.stoppedAtFailure index a.code)]⟩
  | sent {left index : Nat} {s : State σ} {a : Attempt σ} {r : Run σ}
      (down : (d.heedsStop && s.stop) = false) (tries : d.attempt w index s = .ok a)
      (verdict : a.verdict = none) (unstopped : ¬(a.code ≠ 0 ∧ d.plan.stopOnFailure = true))
      (rest : Course d w left (index + 1) a.settled r) :
      Course d w (left + 1) index s
        { r with tally := r.tally.add a.code, trace := a.trace ++ r.trace }

/-- The loop returns a run exactly if the run is a course. -/
theorem loop_eq_ok_iff {d : Drill} {w : Wallet σ} {left index : Nat} {s : State σ} {r : Run σ} :
    d.loop w left index s = .ok r ↔ Course d w left index s r := by
  constructor
  · intro h
    induction left generalizing index s r with
    | zero =>
      cases Except.ok.inj h
      exact .limit
    | succ left ih =>
      rw [loop_succ] at h
      split at h
      · rename_i up
        cases Except.ok.inj h
        exact .stop up
      rename_i down
      rw [Bool.not_eq_true] at down
      split at h
      · cases h
      rename_i a tries
      split at h
      · rename_i ending verdict
        cases Except.ok.inj h
        exact .refused down tries verdict
      rename_i verdict
      split at h
      · rename_i failed
        cases Except.ok.inj h
        exact .failed down tries verdict failed.1 failed.2
      rename_i unstopped
      split at h
      · cases h
      rename_i r hr
      cases Except.ok.inj h
      exact .sent down tries verdict unstopped (ih hr)
  · intro h
    induction h with
    | limit => rfl
    | stop up => rw [loop_succ, if_pos up]
    | refused down tries verdict => simp [loop_succ, down, tries, verdict]
    | failed down tries verdict failure stops =>
      simp [loop_succ, down, tries, verdict, failure, stops]
    | sent down tries verdict unstopped _ ih =>
      rw [loop_succ, down, tries]
      simp only [Bool.false_eq_true, if_false, verdict, if_neg unstopped, ih]

/-- A loop whose payments can all be chosen returns, whatever the wallet does. -/
theorem loop_returns (d : Drill) (w : Wallet σ) {left index : Nat} {s : State σ}
    {x : List Payment × Keystream}
    (hx : Payment.series d.plan.addresses d.plan.ceiling left index s.stream = .ok x) :
    ∃ r, d.loop w left index s = .ok r := by
  induction left generalizing index s x with
  | zero => exact ⟨_, rfl⟩
  | succ left ih =>
    obtain ⟨p, stream, ps, hp, hps, -⟩ := Payment.series_succ_eq_ok_iff.mp hx
    have tries : d.attempt w index s = .ok (d.tried w s p stream) :=
      attempt_eq_ok_iff.mpr ⟨p, stream, hp, rfl⟩
    obtain ⟨r, hr⟩ := ih (s := (d.tried w s p stream).settled)
      (by rw [tried_settled_stream]; exact hps)
    rw [loop_succ, tries]
    simp only [hr]
    split_ifs
    · exact ⟨_, rfl⟩
    · split <;> exact ⟨_, rfl⟩
    · split <;> exact ⟨_, rfl⟩

/-- A limit grants a loop its number of turns; a drill without limit has to end otherwise. -/
def Grants : Limit → Nat → Ending → Prop
  | .count n, left, _ => left = n
  | .unbounded, left, ending => left = horizon ∧ ending ≠ .limit

/-- The notice behind a drill that is told to stop. -/
def closing (d : Drill) (r : Run σ) : Trace :=
  if d.heedsStop && r.state.stop then [.noted (.stopped r.tally.sent)] else []

@[simp] theorem calls_closing (d : Drill) (r : Run σ) : Trace.calls (d.closing r) = [] := by
  unfold closing
  split_ifs <;> rfl

theorem payments_eq_ok_iff {d : Drill} {w : Wallet σ} {limit : Limit} {s : State σ} {c : Run σ} :
    d.payments w limit s = .ok c ↔
      ∃ left, Grants limit left c.ending ∧ Course d w left 0 s c := by
  cases limit with
  | count n => simp only [payments, Grants, loop_eq_ok_iff, exists_eq_left]
  | unbounded =>
    simp only [payments, Grants, and_assoc, exists_eq_left, ← loop_eq_ok_iff]
    cases d.loop w horizon 0 s with
    | error e => simp
    | ok c' =>
      dsimp only
      constructor
      · intro h
        split at h
        · cases h
        · rename_i hc
          cases Except.ok.inj h
          exact ⟨hc, rfl⟩
      · rintro ⟨hc, h⟩
        cases Except.ok.inj h
        rw [if_neg hc]

/-- A run is a course from index 0 on, with its closing notice. -/
theorem run_eq_ok_iff {d : Drill} {w : Wallet σ} {limit : Limit} {s : State σ} {r : Run σ} :
    d.run w limit s = .ok r ↔ ∃ left c, Grants limit left c.ending ∧ Course d w left 0 s c ∧
      r = { c with trace := c.trace ++ d.closing c } := by
  have hclosing (c : Run σ) : (if d.heedsStop && c.state.stop then
      { c with trace := c.trace ++ [.noted (.stopped c.tally.sent)] } else c) =
        { c with trace := c.trace ++ d.closing c } := by
    unfold closing
    split_ifs <;> simp
  unfold run
  constructor
  · intro h
    split at h
    · cases h
    · rename_i c hc
      obtain ⟨left, grants, course⟩ := payments_eq_ok_iff.mp hc
      exact ⟨left, c, grants, course, (Except.ok.inj h).symm.trans (hclosing c)⟩
  · rintro ⟨left, c, grants, course, rfl⟩
    rw [payments_eq_ok_iff.mpr ⟨left, grants, course⟩]
    exact congrArg Except.ok (hclosing c)

/-- A run with a limit returns if its payments can be chosen, whatever the wallet does. -/
theorem run_count_returns (d : Drill) (w : Wallet σ) {n : Nat} {s : State σ}
    {x : List Payment × Keystream}
    (hx : Payment.series d.plan.addresses d.plan.ceiling n 0 s.stream = .ok x) :
    ∃ r, d.run w (.count n) s = .ok r := by
  obtain ⟨c, hc⟩ := d.loop_returns w hx
  exact ⟨_, run_eq_ok_iff.mpr ⟨n, c, rfl, loop_eq_ok_iff.mp hc, rfl⟩⟩

/-- A drill between two addresses that asks for the balance before each payment. -/
def pair : Drill where
  plan :=
    { account := "x"
      addresses := ["a1", "a2"]
      ceiling := Binary64.ofNat 2
      minConfirmations := 1
      checkBalance := true }
  addresses_ne_nil := by decide

/-- A wallet whose second send and third query cannot be started. -/
def faltering : Script where
  balances := [.entries [⟨"x", Binary64.ofNat 100⟩], .entries [⟨"x", Binary64.ofNat 100⟩],
    .notStarted "gone"]
  sends := [.code 0, .notStarted "busy"]
  unlock := .code 0
  interruptsAtQuery := []
  interruptsAtSend := []
  userAtSend := none

def start : State Script.Counters := ⟨Keystream.ofSeed 42, .zero, false⟩

lemma exists_ok_of_toOption {ε α β : Type} {x : Except ε α} {f : α → β} {b : β}
    (h : x.toOption.map f = some b) : ∃ a, x = .ok a ∧ f a = b := by
  cases x with
  | error e => cases h
  | ok a => exact ⟨a, rfl, Option.some.inj h⟩

lemma faltering_returns : ∃ r, pair.run faltering.wallet (.count 5) start = .ok r ∧
    r.tally = ⟨2, 1⟩ :=
  exists_ok_of_toOption (f := Run.tally) (by decide +kernel)

end PaymentDrill.Drill
