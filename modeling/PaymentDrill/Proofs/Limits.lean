import PaymentDrill.Proofs.Accounting

/-!
# Limits of a drill

A limit cuts through a drill and does nothing else to it. A loop of many turns is a loop of
few turns and, if nothing but the limit has ended that one, another loop from where it was
left. So a greater limit, or none, only puts something behind what a smaller limit has
already brought about, and a drill that does not reach its limit is the same under every
other one that it does not reach.
-/
namespace PaymentDrill

@[simp] lemma Trace.calls_noted (n : Notice) (t : Trace) :
    calls (.noted n :: t) = calls t := rfl

namespace Drill

variable {σ : Type} {d : Drill} {w : Wallet σ} {s : State σ}

/-- Whether a drill ends by a query that keeps a payment from being sent. -/
def Ending.isRefusal : Ending → Bool
  | .short | .unknown => true
  | _ => false

/-- An attempt can be kept from being sent by a query alone. -/
lemma isRefusal_of_verdict {index : Nat} {a : Attempt σ} {ending : Ending}
    (tries : d.attempt w index s = .ok a) (h : a.verdict = some ending) :
    ending.isRefusal = true := by
  obtain ⟨p, stream, -, rfl⟩ := attempt_eq_ok_iff.mp tries
  rw [tried_verdict] at h
  split_ifs at h
  unfold verdict at h
  split at h
  · split_ifs at h
    cases h
    rfl
  · cases h
    rfl

lemma Ending.query_eq (ending : Ending) :
    ending.query = if ending.isRefusal then [.balances] else [] := by cases ending <;> rfl

/-- The last call of a drill is a query exactly if the query has ended it. -/
lemma Ledger.refusal_iff {left first : Nat} {r : Run σ} (h : Ledger d left first r) :
    r.ending.isRefusal = true ↔ r.trace.calls.getLast? = some .balances := by
  rw [h.calls, Ending.query_eq]
  split_ifs with hr
  · simp [hr]
  · rw [List.append_nil]
    refine iff_of_false hr ?_
    rcases List.eq_nil_or_concat' r.trace.settlements with hnil | ⟨xs, x, hxs⟩
    · simp [hnil]
    · simp [hxs, exchange]

/-- A course that its limit has ended has sent all that the limit leaves. -/
lemma Course.sent_of_limit {left index : Nat} {r : Run σ} (h : Course d w left index s r)
    (hr : r.ending = .limit) : r.tally.sent = left := by
  induction h with
  | limit => rfl
  | stop up => cases hr
  | refused down tries verdict =>
    subst hr
    cases isRefusal_of_verdict tries verdict
  | failed down tries verdict failure stops => cases hr
  | sent down tries verdict unstopped rest ih => simp only [Tally.add, ih hr]

/-- A course that the flag has ended has found it up. -/
lemma Course.up_of_stop {left index : Nat} {r : Run σ} (h : Course d w left index s r)
    (hr : r.ending = .stop) : (d.heedsStop && r.state.stop) = true := by
  induction h with
  | limit => cases hr
  | stop up => exact up
  | refused down tries verdict =>
    subst hr
    cases isRefusal_of_verdict tries verdict
  | failed down tries verdict failure stops => cases hr
  | sent down tries verdict unstopped rest ih => exact ih hr

/-- Two tallies taken together. -/
def Tally.plus (t u : Tally) : Tally := ⟨t.sent + u.sent, t.failed + u.failed⟩

lemma Tally.zero_plus (t : Tally) : zero.plus t = t := by simp [plus, zero]

lemma Tally.plus_zero (t : Tally) : t.plus zero = t := rfl

lemma Tally.plus_add (t u : Tally) (code : Int32) : (t.plus u).add code = (t.add code).plus u := by
  simp only [plus, add, Tally.mk.injEq]
  split_ifs <;> omega

/-- A run that has gone on to another one. -/
def Run.andThen (r r' : Run σ) : Run σ :=
  ⟨r.tally.plus r'.tally, r'.ending, r'.state, r.trace ++ r'.trace⟩

/-- A loop goes on exactly where a shorter one has come to its limit. -/
theorem loop_add (d : Drill) (w : Wallet σ) (a b index : Nat) (s : State σ) :
    d.loop w (a + b) index s =
      match d.loop w a index s with
      | .error e => .error e
      | .ok r =>
        if r.ending = .limit then (d.loop w b (index + a) r.state).map r.andThen else .ok r := by
  induction a generalizing index s with
  | zero =>
    rw [Nat.zero_add, loop]
    dsimp only
    rw [if_pos rfl, Nat.add_zero]
    cases d.loop w b index s with
    | error e => rfl
    | ok r => simp [Except.map, Run.andThen, Tally.zero_plus]
  | succ a ih =>
    rw [Nat.succ_add, loop_succ, loop_succ]
    split_ifs with up
    · rfl
    cases tries : d.attempt w index s with
    | error e => rfl
    | ok x =>
      dsimp only
      cases verdict : x.verdict with
      | some ending =>
        -- a turn that is refused never ends by the limit
        have hrefusal := isRefusal_of_verdict tries verdict
        dsimp only
        rw [if_neg (by rintro rfl; cases hrefusal)]
      | none =>
        dsimp only
        split_ifs with failed
        · rfl
        rw [ih]
        cases d.loop w a (index + 1) x.settled with
        | error e => rfl
        | ok r =>
          dsimp only
          split_ifs with hr
          · rw [Nat.add_right_comm, Nat.add_assoc]
            cases d.loop w b (index + (a + 1)) r.state with
            | error e => rfl
            | ok r' => simp [Except.map, Run.andThen, Tally.plus_add]
          · rfl

/-- What has ended before its limit is the same under a greater one. -/
lemma loop_of_le {m n index : Nat} {r : Run σ} (hmn : m ≤ n) (h : d.loop w m index s = .ok r)
    (hr : r.ending ≠ .limit) : d.loop w n index s = .ok r := by
  obtain ⟨k, rfl⟩ := Nat.exists_eq_add_of_le hmn
  rw [loop_add, h]
  exact if_neg hr

/-- A loop that returns has come out of every shorter one. -/
lemma exists_loop_of_le {m n index : Nat} {r : Run σ} (hmn : m ≤ n)
    (h : d.loop w n index s = .ok r) : ∃ c, d.loop w m index s = .ok c ∧
      (c.ending ≠ .limit ∧ r = c ∨ c.ending = .limit ∧
        ∃ c', d.loop w (n - m) (index + m) c.state = .ok c' ∧ r = c.andThen c') := by
  obtain ⟨k, rfl⟩ := Nat.exists_eq_add_of_le hmn
  rw [loop_add] at h
  cases hc : d.loop w m index s with
  | error e =>
    rw [hc] at h
    cases h
  | ok c =>
    rw [hc] at h
    dsimp only at h
    refine ⟨c, rfl, ?_⟩
    split_ifs at h with hl
    · rw [Nat.add_sub_cancel_left]
      cases hc' : d.loop w k (index + m) c.state with
      | error e =>
        rw [hc'] at h
        cases h
      | ok c' =>
        rw [hc'] at h
        exact .inr ⟨hl, c', rfl, (Except.ok.inj h).symm⟩
    · exact .inl ⟨hl, (Except.ok.inj h).symm⟩

/-- A run with its closing notice. -/
def closed (d : Drill) (r : Run σ) : Run σ := { r with trace := r.trace ++ d.closing r }

lemma run_count (d : Drill) (w : Wallet σ) (n : Nat) (s : State σ) :
    d.run w (.count n) s = (d.loop w n 0 s).map d.closed := by
  unfold run payments
  dsimp only
  cases d.loop w n 0 s with
  | error e => rfl
  | ok r =>
    dsimp only [Except.map, closed, closing]
    split_ifs <;> simp

lemma run_count_eq_ok_iff {n : Nat} {r : Run σ} :
    d.run w (.count n) s = .ok r ↔ ∃ c, d.loop w n 0 s = .ok c ∧ r = d.closed c := by
  rw [run_count]
  cases d.loop w n 0 s with
  | error e => simp [Except.map]
  | ok c => simp [Except.map, eq_comm]

lemma run_unbounded (d : Drill) (w : Wallet σ) (s : State σ) :
    d.run w .unbounded s =
      match d.loop w horizon 0 s with
      | .error e => .error e
      | .ok r => if r.ending = .limit then .error .endless else .ok (d.closed r) := by
  unfold run payments
  dsimp only
  cases d.loop w horizon 0 s with
  | error e => rfl
  | ok r =>
    dsimp only
    split_ifs with hr
    · rfl
    · dsimp only [closed, closing]
      split_ifs <;> simp

lemma run_unbounded_eq_ok_iff {r : Run σ} :
    d.run w .unbounded s = .ok r ↔
      ∃ c, d.loop w horizon 0 s = .ok c ∧ c.ending ≠ .limit ∧ r = d.closed c := by
  rw [run_unbounded]
  cases d.loop w horizon 0 s with
  | error e => simp
  | ok c =>
    dsimp only
    split_ifs with hc
    · simp [hc]
    · constructor
      · exact fun h => ⟨c, rfl, hc, (Except.ok.inj h).symm⟩
      · rintro ⟨c', h, -, rfl⟩
        cases Except.ok.inj h
        rfl

/-- Nothing is left to do for a drill that finds the flag up. -/
lemma Course.idle {left index : Nat} {r : Run σ} (h : Course d w left index s r)
    (up : (d.heedsStop && s.stop) = true) : r.tally = .zero ∧ r.state = s ∧ r.trace = [] := by
  cases h with
  | limit => exact ⟨rfl, rfl, rfl⟩
  | stop up => exact ⟨rfl, rfl, rfl⟩
  | refused down | failed down | sent down =>
    rw [up] at down
    cases down

/-- A loop that finds the flag up does nothing, and only without turns comes to its limit. -/
lemma loop_of_up (w : Wallet σ) (left index : Nat) (up : (d.heedsStop && s.stop) = true) :
    d.loop w left index s = .ok ⟨.zero, if left = 0 then .limit else .stop, s, []⟩ := by
  cases left with
  | zero => rfl
  | succ left => rw [loop_succ, if_pos up, if_neg left.succ_ne_zero]

/-- A drill that finds the flag up notes that, whatever its limit, and leaves all as it is. -/
lemma run_of_up (d : Drill) (w : Wallet σ) (limit : Limit) {s : State σ}
    (up : (d.heedsStop && s.stop) = true) : ∃ ending, d.run w limit s =
      .ok ⟨.zero, ending, s, [.noted (.stopped 0)]⟩ := by
  have closes (ending : Ending) : (⟨.zero, ending, s, [.noted (.stopped 0)]⟩ : Run σ) =
      d.closed ⟨.zero, ending, s, []⟩ := by
    simp [closed, closing, up, Tally.zero]
  cases limit with
  | count n => exact ⟨_, run_count_eq_ok_iff.mpr ⟨_, loop_of_up w n 0 up, closes _⟩⟩
  | unbounded =>
    exact ⟨.stop, run_unbounded_eq_ok_iff.mpr ⟨_, loop_of_up w horizon 0 up, nofun, closes _⟩⟩

/-- A course does nothing to its stream but take words from it. -/
lemma Course.yields {left index : Nat} {r : Run σ} (h : Course d w left index s r) :
    ∃ ws, s.stream.Yields ws r.state.stream := by
  induction h with
  | limit => exact ⟨[], .nil _⟩
  | stop up => exact ⟨[], .nil _⟩
  | refused down tries verdict =>
    obtain ⟨p, stream, hp, rfl⟩ := attempt_eq_ok_iff.mp tries
    rw [tried_checked_stream]
    exact Payment.yields_of_choose hp
  | failed down tries verdict failure stops =>
    obtain ⟨p, stream, hp, rfl⟩ := attempt_eq_ok_iff.mp tries
    rw [tried_settled_stream]
    exact Payment.yields_of_choose hp
  | sent down tries verdict unstopped rest ih =>
    obtain ⟨p, stream, hp, rfl⟩ := attempt_eq_ok_iff.mp tries
    obtain ⟨ws, hws⟩ := Payment.yields_of_choose hp
    obtain ⟨vs, hvs⟩ := ih
    rw [tried_settled_stream] at hvs
    exact ⟨ws ++ vs, hws.append hvs⟩

/-- A run from a state is the front of another one from there. -/
structure Front (s : State σ) (r r' : Run σ) : Prop where
  trace : r.trace <+: r'.trace
  calls : r.trace.calls <+: r'.trace.calls
  output : r.trace.output <+: r'.trace.output
  /-- The words that the longer run takes begin with those that the shorter one takes. -/
  words : ∃ ws vs, s.stream.Yields ws r.state.stream ∧ s.stream.Yields (ws ++ vs) r'.state.stream

lemma front_of_trace {r r' : Run σ} (ht : r.trace <+: r'.trace)
    (hw : ∃ ws vs, s.stream.Yields ws r.state.stream ∧
      s.stream.Yields (ws ++ vs) r'.state.stream) : Front s r r' := by
  obtain ⟨t, ht'⟩ := ht
  refine ⟨⟨t, ht'⟩, ⟨Trace.calls t, ?_⟩, ⟨Trace.output t, ?_⟩, hw⟩
  · rw [← ht', Trace.calls_append]
  · rw [← ht', Trace.output_append]

/-- If the limit has ended a drill with its flag up, then the flag ends every longer one. -/
lemma front_closed {left index left' index' : Nat} {c c' : Run σ}
    (h : Course d w left index s c) (h' : Course d w left' index' c.state c') :
    Front s (d.closed c) (d.closed (c.andThen c')) := by
  obtain ⟨ws, hws⟩ := h.yields
  obtain ⟨vs, hvs⟩ := h'.yields
  refine front_of_trace ?_ ⟨ws, vs, hws, hws.append hvs⟩
  simp only [closed, Run.andThen]
  by_cases up : (d.heedsStop && c.state.stop) = true
  · obtain ⟨htally, hstate, htrace⟩ := h'.idle up
    have hclosing : d.closing (c.andThen c') = d.closing c := by
      simp [closing, Run.andThen, htally, hstate, Tally.plus, Tally.zero]
    simp only [Run.andThen] at hclosing
    exact ⟨[], by rw [hclosing, htrace, List.append_nil, List.append_nil]⟩
  · rw [closing, if_neg up, List.append_nil, List.append_assoc]
    exact List.prefix_append _ _

/-- A run is the front of every run from the same state whose limit is greater. -/
lemma exists_front {m n : Nat} {c : Run σ} (hmn : m ≤ n) (h : d.loop w n 0 s = .ok c) :
    ∃ r, d.run w (.count m) s = .ok r ∧ Front s r (d.closed c) := by
  obtain ⟨b, hb, ⟨-, rfl⟩ | ⟨-, c', hc', rfl⟩⟩ := exists_loop_of_le hmn h
  · obtain ⟨ws, hws⟩ := (loop_eq_ok_iff.mp hb).yields
    refine ⟨_, run_count_eq_ok_iff.mpr ⟨_, hb, rfl⟩,
      front_of_trace List.prefix_rfl ⟨ws, [], hws, ?_⟩⟩
    rw [List.append_nil]
    exact hws
  · exact ⟨_, run_count_eq_ok_iff.mpr ⟨b, hb, rfl⟩,
      front_closed (loop_eq_ok_iff.mp hb) (loop_eq_ok_iff.mp hc')⟩

/-- A run that stays below its limit has been ended by something else. -/
lemma ending_ne_limit {left index : Nat} {c : Run σ} (h : d.loop w left index s = .ok c)
    (below : c.tally.sent < left) : c.ending ≠ .limit := fun hc =>
  absurd ((loop_eq_ok_iff.mp h).sent_of_limit hc) (Nat.ne_of_lt below)

/-- A loop that is cut off at no more payments than it sends comes to its limit there. -/
lemma sent_eq_of_le {m n : Nat} {c r : Run σ} (hc : d.loop w m 0 s = .ok c)
    (hr : d.loop w n 0 s = .ok r) (hmn : m ≤ n) (hm : m ≤ r.tally.sent) : c.tally.sent = m := by
  refine Nat.le_antisymm (ledger_of_course (loop_eq_ok_iff.mp hc)).sent_le ?_
  by_contra below
  have same := loop_of_le hmn hc (ending_ne_limit hc (Nat.lt_of_not_le below))
  cases Except.ok.inj (hr.symm.trans same)
  exact below hm

/-- A drill without limit is the drill with any limit that it stays below. -/
lemma loop_of_below {n : Nat} {c : Run σ} (hc : d.loop w horizon 0 s = .ok c)
    (ended : c.ending ≠ .limit) (below : c.tally.sent < n) : d.loop w n 0 s = .ok c := by
  rcases Nat.le_total horizon n with hn | hn
  · exact loop_of_le hn hc ended
  obtain ⟨b, hb, ⟨-, rfl⟩ | ⟨limit, c', -, rfl⟩⟩ := exists_loop_of_le hn hc
  · exact hb
  · -- the loop of `n` turns would have sent all `n`, and the longer one no fewer
    have hsent := (loop_eq_ok_iff.mp hb).sent_of_limit limit
    simp only [Run.andThen, Tally.plus] at below
    omega

/-- What a run has sent and settled when it is the front of another. -/
lemma Front.take {left left' : Nat} {r r' : Run σ} (h : Front s r r') (hl : Ledger d left 0 r)
    (hl' : Ledger d left' 0 r') :
    r.trace.settlements = r'.trace.settlements.take r.tally.sent ∧
      r.trace.transfers = r'.trace.transfers.take r.tally.sent := by
  have hs : r.trace.settlements = r'.trace.settlements.take r.tally.sent := by
    obtain ⟨t, ht⟩ := h.trace
    rw [← ht, Trace.settlements_append, ← hl.sent, List.take_left]
  refine ⟨hs, ?_⟩
  rw [hl.transfers, hl'.transfers, ← List.map_take, ← hs]

/-- Limits only truncate. A smaller limit gives the front of the run; a run that stays below
its limit is the run of every greater limit and of none; a run without limit is that of every
limit that it stays below, and of the others the first payments. -/
theorem run_truncated (d : Drill) (w : Wallet σ) (s : State σ) :
    (∀ m n r, m ≤ n → d.run w (.count n) s = .ok r →
      ∃ c, d.run w (.count m) s = .ok c ∧ Front s c r) ∧
    (∀ n r, d.run w (.count n) s = .ok r → r.tally.sent < n →
      (∀ m, n ≤ m → d.run w (.count m) s = .ok r) ∧
        (n ≤ horizon → d.run w .unbounded s = .ok r)) ∧
    ∀ r, d.run w .unbounded s = .ok r →
      (∀ n, r.tally.sent < n → d.run w (.count n) s = .ok r) ∧
        ∀ n, n ≤ r.tally.sent → ∃ c, d.run w (.count n) s = .ok c ∧ Front s c r ∧
          c.tally.sent = n ∧ c.trace.transfers = r.trace.transfers.take n ∧
            c.trace.settlements = r.trace.settlements.take n := by
  refine ⟨?_, ?_, ?_⟩
  · intro m n r hmn hr
    obtain ⟨c, hc, rfl⟩ := run_count_eq_ok_iff.mp hr
    exact exists_front hmn hc
  · intro n r hr below
    obtain ⟨c, hc, rfl⟩ := run_count_eq_ok_iff.mp hr
    have ended := ending_ne_limit hc below
    exact ⟨fun m hnm => run_count_eq_ok_iff.mpr ⟨c, loop_of_le hnm hc ended, rfl⟩,
      fun hn => run_unbounded_eq_ok_iff.mpr ⟨c, loop_of_le hn hc ended, ended, rfl⟩⟩
  · intro r hr
    obtain ⟨left, -, hl⟩ := ledger_of_run hr
    obtain ⟨c, hc, ended, rfl⟩ := run_unbounded_eq_ok_iff.mp hr
    refine ⟨fun n below => run_count_eq_ok_iff.mpr ⟨c, loop_of_below hc ended below, rfl⟩, ?_⟩
    intro n hn
    have hn' : n ≤ horizon := Nat.le_trans hn (ledger_of_course (loop_eq_ok_iff.mp hc)).sent_le
    obtain ⟨b, hb, front⟩ := exists_front hn' hc
    obtain ⟨left', -, hl'⟩ := ledger_of_run hb
    obtain ⟨b, hb', rfl⟩ := run_count_eq_ok_iff.mp hb
    have hsent : (d.closed b).tally.sent = n :=
      show b.tally.sent = n from sent_eq_of_le hb' hc hn' hn
    obtain ⟨settled, sent⟩ := front.take hl' hl
    rw [hsent] at settled sent
    exact ⟨_, hb, front, hsent, sent, settled⟩

/-- Two payments, under a limit that is reached or missed and under none. -/
theorem faltering_truncated : ∃ r c, pair.run faltering.wallet (.count 5) start = .ok r ∧
    r.tally = ⟨2, 1⟩ ∧ pair.run faltering.wallet (.count 9) start = .ok r ∧
      pair.run faltering.wallet .unbounded start = .ok r ∧
        pair.run faltering.wallet (.count 3) start = .ok r ∧
          pair.run faltering.wallet (.count 1) start = .ok c ∧ Front start c r ∧
            c.trace.transfers = r.trace.transfers.take 1 := by
  obtain ⟨r, hr, ht⟩ := faltering_returns
  have hsent : r.tally.sent = 2 := congrArg Tally.sent ht
  obtain ⟨front, same, whole⟩ := run_truncated pair faltering.wallet start
  obtain ⟨counted, unbounded⟩ := same 5 r hr (by omega)
  have free := unbounded (by decide)
  obtain ⟨c, hc, hfront⟩ := front 1 5 r (by decide) hr
  obtain ⟨c', hc', -, -, htransfers, -⟩ := (whole r free).2 1 (by omega)
  cases Except.ok.inj (hc.symm.trans hc')
  exact ⟨r, c, hr, ht, counted 9 (by decide), free, (whole r free).1 3 (by omega), hc, hfront,
    htransfers⟩

end Drill

end PaymentDrill
