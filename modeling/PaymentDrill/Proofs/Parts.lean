import PaymentDrill.Proofs.Limits

/-!
# Drills in parts

A drill that is sent on its way twice, with the wallet, the stream and the flag as the first
time has left them, does what it would have done at one go. Only the indices begin anew, and
an index is no more than a label. A guard is another matter: it ends the drill at one go as
well, whereas a second part would make a new start.
-/
namespace PaymentDrill

/-- The event with a payment's index moved up. -/
def Event.delay (k : Nat) : Event → Event
  | .settled p code => .settled { p with index := p.index + k } code
  | e => e

namespace Drill

variable {σ : Type} {d : Drill} {w : Wallet σ} {s : State σ}

/-- One of the guards has ended the run: a failed send, where failures stop the drill, or a
query that no send has followed. -/
def EndedByGuard (d : Drill) (r : Run σ) : Prop :=
  (d.plan.stopOnFailure = true ∧ ∃ x ∈ r.trace.settlements, x.2 ≠ 0) ∨
    r.trace.calls.getLast? = some .balances

/-- A failed send ends a drill that stops at failures, and nothing else makes a drill end so. -/
lemma Course.failure_iff {left index : Nat} {r : Run σ} (h : Course d w left index s r) :
    r.ending = .failure ↔
      d.plan.stopOnFailure = true ∧ ∃ x ∈ r.trace.settlements, x.2 ≠ 0 := by
  induction h with
  | limit => simp [Trace.settlements]
  | stop up => simp [Trace.settlements]
  | refused down tries verdict =>
    obtain ⟨p, stream, -, rfl⟩ := attempt_eq_ok_iff.mp tries
    have hrefusal := isRefusal_of_verdict tries verdict
    rw [settlements_query]
    simp only [List.not_mem_nil, false_and, exists_false, and_false, iff_false]
    rintro rfl
    cases hrefusal
  | failed down tries verdict failure stops =>
    obtain ⟨p, stream, -, rfl⟩ := attempt_eq_ok_iff.mp tries
    rw [Trace.settlements_append, settlements_tried]
    simp [stops, failure]
  | sent down tries verdict unstopped rest ih =>
    obtain ⟨p, stream, -, rfl⟩ := attempt_eq_ok_iff.mp tries
    rw [Trace.settlements_append, settlements_tried]
    simp only [List.singleton_append, List.exists_mem_cons_iff]
    rw [ih]
    constructor
    · rintro ⟨stops, x⟩
      exact ⟨stops, .inr x⟩
    · rintro ⟨stops, failure | x⟩
      · exact absurd ⟨failure, stops⟩ unstopped
      · exact ⟨stops, x⟩

/-- Only the limit and the flag are left to end a drill that no guard has ended. -/
lemma limit_or_stop {left index : Nat} {r : Run σ} (h : Course d w left index s r)
    (unguarded : ¬EndedByGuard d r) : r.ending = .limit ∨ r.ending = .stop := by
  rw [EndedByGuard, ← h.failure_iff, ← (ledger_of_course h).refusal_iff] at unguarded
  cases hr : r.ending with
  | limit => exact .inl rfl
  | stop => exact .inr rfl
  | failure | short | unknown => exact absurd (by rw [hr]; decide) unguarded

lemma endedByGuard_closed (d : Drill) (r : Run σ) :
    EndedByGuard d (d.closed r) ↔ EndedByGuard d r := by
  simp [EndedByGuard, closed, settlements_closing]

/-- What a run comes to when its words are left aside: counts, state and calls. -/
structure Outline (σ : Type) where
  tally : Tally
  state : State σ
  calls : List Event

def Run.outline (r : Run σ) : Outline σ := ⟨r.tally, r.state, r.trace.calls⟩

/-- The same counts and state, with the indices moved up. -/
def Outline.delay (k : Nat) (o : Outline σ) : Outline σ :=
  { o with calls := o.calls.map (Event.delay k) }

def Outline.append (o o' : Outline σ) : Outline σ :=
  ⟨o.tally.plus o'.tally, o'.state, o.calls ++ o'.calls⟩

/-- An outline that another follows, whose indices begin where the first one has got to. -/
def Outline.join (o o' : Outline σ) : Outline σ := o.append (o'.delay o.tally.sent)

lemma outline_andThen (r r' : Run σ) : (r.andThen r').outline = r.outline.append r'.outline := by
  simp [Run.outline, Run.andThen, Outline.append]

@[simp] lemma outline_closed (d : Drill) (r : Run σ) : (d.closed r).outline = r.outline := by
  simp [Run.outline, closed]

lemma map_delay_exchange (d : Drill) (k : Nat) (x : Payment × Int32) :
    (d.exchange x).map (Event.delay k) =
      d.exchange ({ x.1 with index := x.1.index + k }, x.2) := by
  unfold exchange queries
  split_ifs <;> rfl

lemma map_delay_queries (d : Drill) (k : Nat) : d.queries.map (Event.delay k) = d.queries := by
  unfold queries
  split_ifs <;> rfl

/-- An attempt that differs from another in nothing but a higher index. -/
structure Attempt.Delays (k : Nat) (a b : Attempt σ) : Prop where
  verdict : b.verdict = a.verdict
  checked : b.checked = a.checked
  code : b.code = a.code
  settled : b.settled = a.settled
  query : b.query.calls = a.query.calls.map (Event.delay k)
  trace : b.trace.calls = a.trace.calls.map (Event.delay k)

lemma tried_delays (d : Drill) (w : Wallet σ) (s : State σ) (p : Payment) (stream : Keystream)
    (k : Nat) :
    (d.tried w s p stream).Delays k (d.tried w s { p with index := p.index + k } stream) := by
  have code : (d.tried w s { p with index := p.index + k } stream).code =
      (d.tried w s p stream).code := by
    simp only [tried, send_eq]
    rfl
  refine ⟨rfl, rfl, code, ?_, ?_, ?_⟩
  · simp only [tried, send_eq]
    rfl
  · rw [tried_query_calls, tried_query_calls, map_delay_queries]
  · rw [tried_trace_calls, tried_trace_calls, map_delay_exchange, code]

lemma attempt_delay (d : Drill) (w : Wallet σ) (index k : Nat) (s : State σ) :
    match d.attempt w index s with
    | .error e => d.attempt w (index + k) s = .error e
    | .ok a => ∃ b, d.attempt w (index + k) s = .ok b ∧ a.Delays k b := by
  unfold attempt
  rw [Payment.choose_relabel _ _ (index + k) index]
  cases chosen : Payment.choose d.plan.addresses d.plan.ceiling index s.stream with
  | error e => rfl
  | ok x =>
    obtain ⟨p, stream⟩ := x
    obtain rfl := Payment.index_of_choose chosen
    exact ⟨_, rfl, d.tried_delays w s p stream k⟩

/-- The index is no more than a label: a drill that begins with another one does the same. -/
lemma loop_delay (d : Drill) (w : Wallet σ) (left index k : Nat) (s : State σ) :
    (d.loop w left (index + k) s).map Run.outline =
      (d.loop w left index s).map fun r => r.outline.delay k := by
  induction left generalizing index s with
  | zero => rfl
  | succ left ih =>
    rw [loop_succ, loop_succ]
    split_ifs with up
    · rfl
    have hdelay := d.attempt_delay w index k s
    cases tries : d.attempt w index s with
    | error e =>
      rw [tries] at hdelay
      rw [hdelay]
      rfl
    | ok a =>
      rw [tries] at hdelay
      obtain ⟨b, hb, h⟩ := hdelay
      rw [hb]
      dsimp only
      rw [h.verdict, h.checked, h.code, h.settled]
      cases a.verdict with
      | some ending => simp [Except.map, Run.outline, Outline.delay, h.query]
      | none =>
        dsimp only
        split_ifs with failed
        · simp [Except.map, Run.outline, Outline.delay, h.trace]
        have hrest := ih (index + 1) a.settled
        rw [Nat.add_right_comm]
        cases hr : d.loop w left (index + 1) a.settled with
        | error e =>
          rw [hr] at hrest
          cases hr' : d.loop w left (index + 1 + k) a.settled with
          | error e' =>
            rw [hr'] at hrest
            cases Except.error.inj hrest
            rfl
          | ok r' =>
            rw [hr'] at hrest
            cases hrest
        | ok r =>
          rw [hr] at hrest
          cases hr' : d.loop w left (index + 1 + k) a.settled with
          | error e' =>
            rw [hr'] at hrest
            cases hrest
          | ok r' =>
            rw [hr'] at hrest
            obtain ⟨tally, state, calls⟩ := Outline.mk.inj (Except.ok.inj hrest)
            simp [Except.map, Run.outline, Outline.delay, h.trace, tally, state, calls]

lemma run_count_outline (d : Drill) (w : Wallet σ) (n : Nat) (s : State σ) :
    (d.run w (.count n) s).map Run.outline = (d.loop w n 0 s).map Run.outline := by
  rw [run_count]
  cases d.loop w n 0 s <;> simp [Except.map]

/-- A drill in two parts is the drill at one go, if no guard has ended the first part. -/
theorem run_split (d : Drill) (w : Wallet σ) (s : State σ) (a b : Nat) (r : Run σ)
    (first : d.run w (.count a) s = .ok r) (unguarded : ¬EndedByGuard d r) :
    (d.run w (.count (a + b)) s).map Run.outline =
      (d.run w (.count b) r.state).map fun r' => r.outline.join r'.outline := by
  obtain ⟨c, hc, rfl⟩ := run_count_eq_ok_iff.mp first
  rw [endedByGuard_closed] at unguarded
  have course := loop_eq_ok_iff.mp hc
  rw [run_count_outline, loop_add, hc, outline_closed]
  dsimp only
  rcases limit_or_stop course unguarded with limit | stop
  · have hsent : c.outline.tally.sent = a := course.sent_of_limit limit
    have hjoin (x : Except Stuck (Run σ)) : (x.map c.andThen).map Run.outline =
        (x.map Run.outline).map c.outline.append := by
      cases x <;> simp [Except.map, outline_andThen]
    have hrest : d.run w (.count b) (d.closed c).state = (d.loop w b 0 c.state).map d.closed :=
      d.run_count w b c.state
    rw [if_pos limit, hjoin, loop_delay, hrest]
    cases d.loop w b 0 c.state <;> simp [Except.map, Outline.join, hsent]
  · -- the flag that has ended the first part leaves nothing to the second one
    obtain ⟨ending, idle⟩ := d.run_of_up w (.count b) (course.up_of_stop stop)
    have hrest : d.run w (.count b) (d.closed c).state = _ := idle
    rw [if_neg (by rw [stop]; decide), hrest]
    simp [Except.map, Run.outline, Outline.join, Outline.append, Outline.delay, Tally.plus,
      Tally.zero]

/-- The faltering wallet, with an interrupt during the send that it does not start. -/
def pestered : Script := { faltering with interruptsAtSend := [2] }

/-- An interrupt in the second part ends the drill at one go in the same place. -/
theorem pestered_split : ∃ r, pair.run pestered.wallet (.count 1) start = .ok r ∧
    ¬EndedByGuard pair r ∧
      (pair.run pestered.wallet (.count (1 + 3)) start).map Run.outline =
        (pair.run pestered.wallet (.count 3) r.state).map fun r' => r.outline.join r'.outline := by
  obtain ⟨r, hr, hlast⟩ : ∃ r, pair.run pestered.wallet (.count 1) start = .ok r ∧
      decide (r.trace.calls.getLast? = some .balances) = false :=
    exists_ok_of_toOption
      (f := fun r : Run _ => decide (r.trace.calls.getLast? = some .balances)) (by decide +kernel)
  have unguarded : ¬EndedByGuard pair r := by
    rintro (⟨stops, -⟩ | last)
    · cases stops
    · exact of_decide_eq_false hlast last
  exact ⟨r, hr, unguarded, run_split pair pestered.wallet start 1 3 r hr unguarded⟩

end Drill

end PaymentDrill
