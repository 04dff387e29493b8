import PaymentDrill.Proofs.Limits

/-!
# Calls replayed

What the calls of a drill have done to its wallet and to the stop flag can be told from the
calls alone: they are made once more, one after the other, with no loop that decides about
them. So one can speak of how things stood at any call of a run. Every call belongs to a
turn of the loop, which is a query that the payment fails or the exchange of a payment, and
what the turn begins with is what the calls before it have left.
-/
namespace PaymentDrill.Drill

variable {σ : Type} {d : Drill} {w : Wallet σ} {s : State σ}

/-- The state of a wallet with the stop flag, which is what calls can change. -/
structure WalletAndFlag (σ : Type) where
  wallet : σ
  stop : Bool

def State.walletAndFlag (s : State σ) : WalletAndFlag σ := ⟨s.wallet, s.stop⟩

namespace WalletAndFlag

def after {α : Type} (x : WalletAndFlag σ) (r : Reply σ α) : WalletAndFlag σ :=
  ⟨r.state, x.stop || r.interrupt⟩

/-- What a call does; an event that is no request does nothing. -/
def call (w : Wallet σ) (x : WalletAndFlag σ) : Event → WalletAndFlag σ
  | .balances => x.after (w.balances x.wallet)
  | .unlock password => x.after (w.unlock password x.wallet)
  | .send t => x.after (w.send t x.wallet)
  | _ => x

/-- What calls do, one after the other. -/
def replay (w : Wallet σ) (x : WalletAndFlag σ) (calls : List Event) : WalletAndFlag σ :=
  calls.foldl (call w) x

@[simp] theorem replay_nil (w : Wallet σ) (x : WalletAndFlag σ) : x.replay w [] = x := rfl

@[simp] theorem replay_cons (w : Wallet σ) (x : WalletAndFlag σ) (e : Event) (es : List Event) :
    x.replay w (e :: es) = (x.call w e).replay w es := rfl

@[simp] theorem replay_append (w : Wallet σ) (x : WalletAndFlag σ) (es fs : List Event) :
    x.replay w (es ++ fs) = (x.replay w es).replay w fs := List.foldl_append

/-- No call lowers the flag. -/
lemma stop_call {x : WalletAndFlag σ} (up : x.stop = true) (e : Event) :
    (x.call w e).stop = true := by
  cases e <;> simp [call, after, up]

lemma stop_replay {x : WalletAndFlag σ} (up : x.stop = true) (es : List Event) :
    (x.replay w es).stop = true := by
  induction es generalizing x with
  | nil => exact up
  | cons e es ih => exact ih (stop_call up e)

end WalletAndFlag

/-- The code that a payment comes back with when it is sent with the wallet in a given state. -/
def codeFrom (d : Drill) (w : Wallet σ) (p : Payment) (x : WalletAndFlag σ) : Int32 :=
  codeOf (w.send (d.transfer p) (x.replay w d.queries).wallet).result

lemma tried_checked_walletAndFlag (d : Drill) (w : Wallet σ) (s : State σ) (p : Payment)
    (stream : Keystream) :
    (d.tried w s p stream).checked.walletAndFlag = s.walletAndFlag.replay w d.queries := by
  simp only [tried, check_eq, queries]
  split_ifs <;> rfl

lemma tried_code (d : Drill) (w : Wallet σ) (s : State σ) (p : Payment) (stream : Keystream) :
    (d.tried w s p stream).code = d.codeFrom w p s.walletAndFlag := by
  have hchecked := congrArg WalletAndFlag.wallet (d.tried_checked_walletAndFlag w s p stream)
  rw [codeFrom, ← hchecked]
  simp only [tried, send_eq]
  rfl

lemma tried_settled_walletAndFlag (d : Drill) (w : Wallet σ) (s : State σ) (p : Payment)
    (stream : Keystream) (code : Int32) :
    (d.tried w s p stream).settled.walletAndFlag =
      s.walletAndFlag.replay w (d.exchange (p, code)) := by
  rw [exchange, WalletAndFlag.replay_append, ← d.tried_checked_walletAndFlag w s p stream]
  simp only [tried, send_eq]
  rfl

/-- The wallet and the flag end a course as its calls have left them. -/
theorem Course.walletAndFlag {left index : Nat} {r : Run σ} (h : Course d w left index s r) :
    r.state.walletAndFlag = s.walletAndFlag.replay w r.trace.calls := by
  induction h with
  | limit => rfl
  | stop up => rfl
  | refused down tries verdict =>
    obtain ⟨p, stream, -, rfl⟩ := attempt_eq_ok_iff.mp tries
    rw [tried_query_calls, tried_checked_walletAndFlag]
  | failed down tries verdict failure stops =>
    obtain ⟨p, stream, -, rfl⟩ := attempt_eq_ok_iff.mp tries
    rw [Trace.calls_append, tried_trace_calls, WalletAndFlag.replay_append,
      ← tried_settled_walletAndFlag]
    rfl
  | sent down tries verdict unstopped rest ih =>
    obtain ⟨p, stream, -, rfl⟩ := attempt_eq_ok_iff.mp tries
    rw [Trace.calls_append, tried_trace_calls, WalletAndFlag.replay_append,
      ← tried_settled_walletAndFlag]
    exact ih

/-- The calls of a turn for a payment, from a state of the wallet with the flag. -/
inductive Turn (d : Drill) (w : Wallet σ) (x : WalletAndFlag σ) (p : Payment) : List Event → Prop
  | refused {ending : Ending} (checks : d.plan.checkBalance = true)
      (verdict : d.verdict p (w.balances x.wallet).result = some ending) :
      Turn d w x p [.balances]
  | sent (verdict : d.plan.checkBalance = true →
      d.verdict p (w.balances x.wallet).result = none) :
      Turn d w x p (d.exchange (p, d.codeFrom w p x))

lemma turn_refused {p : Payment} {stream : Keystream} {ending : Ending}
    (h : (d.tried w s p stream).verdict = some ending) : Turn d w s.walletAndFlag p d.queries := by
  rw [tried_verdict] at h
  split_ifs at h with checks
  rw [queries, if_pos checks]
  exact .refused checks h

lemma turn_sent {p : Payment} {stream : Keystream}
    (h : (d.tried w s p stream).verdict = none) :
    Turn d w s.walletAndFlag p (d.exchange (p, (d.tried w s p stream).code)) := by
  rw [tried_code]
  refine .sent fun checks => ?_
  rwa [tried_verdict, if_pos checks] at h

/-- A send in a turn comes right behind the queries, and its settling ends the turn. -/
lemma Turn.send {x : WalletAndFlag σ} {p : Payment} {front back : List Event} {t : Transfer}
    (h : Turn d w x p (front ++ .send t :: back)) :
    front = d.queries ∧ t = d.transfer p ∧ back = [.settled p (d.codeFrom w p x)] ∧
      (d.plan.checkBalance = true → d.verdict p (w.balances x.wallet).result = none) := by
  generalize hcalls : front ++ .send t :: back = calls at h
  cases h with
  | refused checks verdict => rcases front with _ | ⟨e, _ | ⟨e', front⟩⟩ <;> simp at hcalls
  | sent verdict =>
    unfold exchange queries at hcalls
    unfold queries
    split_ifs at hcalls ⊢
    · rcases front with _ | ⟨e, _ | ⟨e', _ | ⟨e'', front⟩⟩⟩ <;> simp_all
    · rcases front with _ | ⟨e, _ | ⟨e', front⟩⟩ <;> simp_all

/-- A query begins its turn, and ends it exactly if the answer does not cover the payment. -/
lemma Turn.balances {x : WalletAndFlag σ} {p : Payment} {front back : List Event}
    (h : Turn d w x p (front ++ .balances :: back)) :
    d.plan.checkBalance = true ∧ front = [] ∧
      back = if d.verdict p (w.balances x.wallet).result = none then
        [.send (d.transfer p), .settled p (d.codeFrom w p x)] else [] := by
  generalize hcalls : front ++ .balances :: back = calls at h
  cases h with
  | refused checks verdict =>
    rcases front with _ | ⟨e, front⟩ <;> simp at hcalls
    exact ⟨checks, rfl, by simp [hcalls, verdict]⟩
  | sent verdict =>
    unfold exchange queries at hcalls
    split_ifs at hcalls with checks
    · rcases front with _ | ⟨e, _ | ⟨e', _ | ⟨e'', front⟩⟩⟩ <;> simp at hcalls
      exact ⟨checks, rfl, by simp [hcalls, verdict checks]⟩
    · rcases front with _ | ⟨e, _ | ⟨e', front⟩⟩ <;> simp at hcalls

/-- A call is made in a turn: what has been called before the turn, where the turn begins,
and what is called after it. -/
structure Place (d : Drill) (w : Wallet σ) (s : State σ) (index : Nat)
    (past calls rest : List Event) (p : Payment) : Prop where
  turn : Turn d w (s.walletAndFlag.replay w past) p calls
  /-- The payment of the turn is the one of the series that comes after those already sent. -/
  next : Payment.IsNext d.plan.addresses d.plan.ceiling index s.stream
    (past.filterMap Event.transfer?).length p
  down : (d.heedsStop && (s.walletAndFlag.replay w past).stop) = false
  /-- With the flag up, the turn is the last one. -/
  last : (d.heedsStop && (s.walletAndFlag.replay w (past ++ calls)).stop) = true → rest = []

/-- A member of one of two lists is in the first one or in the second one. -/
lemma append_eq_append_cons {α : Type} {xs ys before after : List α} {x : α}
    (h : xs ++ ys = before ++ x :: after) :
    (∃ after', xs = before ++ x :: after' ∧ after = after' ++ ys) ∨
      ∃ before', before = xs ++ before' ∧ ys = before' ++ x :: after := by
  rcases List.append_eq_append_iff.mp h with ⟨zs, rfl, rfl⟩ | ⟨zs, rfl, hz⟩
  · exact .inr ⟨zs, rfl, rfl⟩
  · cases zs with
    | nil => exact .inr ⟨[], by simp, by simpa using hz.symm⟩
    | cons z zs =>
      obtain ⟨rfl, rfl⟩ := List.cons.inj hz
      exact .inl ⟨zs, rfl, rfl⟩

/-- A turn at the beginning of a course is the place of each of its calls. -/
lemma place_first {index : Nat} {p : Payment} {stream : Keystream} {calls rest : List Event}
    (turn : Turn d w s.walletAndFlag p calls)
    (chosen : Payment.choose d.plan.addresses d.plan.ceiling index s.stream = .ok (p, stream))
    (down : (d.heedsStop && s.stop) = false)
    (last : (d.heedsStop && (s.walletAndFlag.replay w calls).stop) = true → rest = []) :
    Place d w s index [] calls rest p :=
  ⟨turn, Payment.isNext_zero chosen, down, last⟩

lemma transfers_exchange (d : Drill) (x : Payment × Int32) :
    (d.exchange x).filterMap Event.transfer? = [d.transfer x.1] := by
  unfold exchange queries
  split_ifs <;> rfl

/-- A place in what follows a payment is a place behind that payment. -/
lemma Place.behind {index : Nat} {p q : Payment} {stream : Keystream} {past calls rest : List Event}
    (h : Place d w (d.tried w s p stream).settled (index + 1) past calls rest q)
    (chosen : Payment.choose d.plan.addresses d.plan.ceiling index s.stream = .ok (p, stream))
    (code : Int32) : Place d w s index (d.exchange (p, code) ++ past) calls rest q := by
  obtain ⟨turn, next, down, last⟩ := h
  rw [d.tried_settled_walletAndFlag w s p stream code] at turn down last
  rw [tried_settled_stream] at next
  refine ⟨?_, ?_, ?_, ?_⟩
  · rwa [WalletAndFlag.replay_append]
  · rw [List.filterMap_append, transfers_exchange, List.singleton_append, List.length_cons]
    exact next.succ chosen
  · rwa [WalletAndFlag.replay_append]
  · rwa [List.append_assoc, WalletAndFlag.replay_append]

/-- Every call of a course has its place. -/
theorem Course.place {left index : Nat} {r : Run σ} (h : Course d w left index s r)
    {before after : List Event} {e : Event} (hcalls : r.trace.calls = before ++ e :: after) :
    ∃ past front back rest p, before = past ++ front ∧ after = back ++ rest ∧
      Place d w s index past (front ++ e :: back) rest p := by
  induction h generalizing before with
  | limit => simp at hcalls
  | stop up => simp at hcalls
  | refused down tries verdict =>
    obtain ⟨p, stream, chosen, rfl⟩ := attempt_eq_ok_iff.mp tries
    rw [tried_query_calls] at hcalls
    refine ⟨[], before, after, [], p, rfl, (List.append_nil _).symm, ?_⟩
    rw [← hcalls]
    exact place_first (turn_refused verdict) chosen down fun _ => rfl
  | failed down tries verdict failure stops =>
    obtain ⟨p, stream, chosen, rfl⟩ := attempt_eq_ok_iff.mp tries
    rw [Trace.calls_append, tried_trace_calls, Trace.calls_noted, Trace.calls_nil,
      List.append_nil] at hcalls
    refine ⟨[], before, after, [], p, rfl, (List.append_nil _).symm, ?_⟩
    rw [← hcalls]
    exact place_first (turn_sent verdict) chosen down fun _ => rfl
  | @sent left index s a r down tries verdict unstopped rest ih =>
    obtain ⟨p, stream, chosen, rfl⟩ := attempt_eq_ok_iff.mp tries
    rw [Trace.calls_append, tried_trace_calls] at hcalls
    -- the call belongs to this turn or to what follows it
    rcases append_eq_append_cons hcalls with ⟨back, hturn, hafter⟩ | ⟨before', rfl, hrest⟩
    · refine ⟨[], before, back, r.trace.calls, p, rfl, hafter, ?_⟩
      rw [← hturn]
      refine place_first (turn_sent verdict) chosen down fun up => ?_
      rw [← d.tried_settled_walletAndFlag w s p stream] at up
      rw [(rest.idle up).2.2, Trace.calls_nil]
    · obtain ⟨past, front, back, tail, q, rfl, rfl, hplace⟩ := ih hrest
      exact ⟨_, front, back, tail, q, (List.append_assoc ..).symm, rfl, hplace.behind chosen _⟩

section Runs

variable {limit : Limit} {r : Run σ}

/-- The notice behind a run is no call. -/
theorem walletAndFlag_of_run (h : d.run w limit s = .ok r) :
    r.state.walletAndFlag = s.walletAndFlag.replay w r.trace.calls := by
  obtain ⟨left, c, -, course, rfl⟩ := run_eq_ok_iff.mp h
  rw [Trace.calls_append, calls_closing, List.append_nil]
  exact course.walletAndFlag

theorem place_of_run (h : d.run w limit s = .ok r) {before after : List Event} {e : Event}
    (hcalls : r.trace.calls = before ++ e :: after) :
    ∃ past front back rest p, before = past ++ front ∧ after = back ++ rest ∧
      Place d w s 0 past (front ++ e :: back) rest p := by
  obtain ⟨left, c, -, course, rfl⟩ := run_eq_ok_iff.mp h
  rw [Trace.calls_append, calls_closing, List.append_nil] at hcalls
  exact course.place hcalls

end Runs

end PaymentDrill.Drill
