import PaymentDrill.Proofs.Accounting
import PaymentDrill.Session

/-!
# Openings of a session

What stands between a session and its first payment. There are five things that can
go wrong, one after the other, and each is an obstacle with a failure, calls and
written bytes of its own. A session meets an obstacle or is open, never both, and
only an open session comes to its drill: no money moves in front of an obstacle.
-/
namespace PaymentDrill

/-- The calls of a drill. -/
def Event.isDrillCall : Event → Bool
  | .balances | .send _ | .settled .. => true
  | _ => false

/-- The calls that money moves by. -/
def Event.isPayment : Event → Bool
  | .send _ | .settled .. => true
  | _ => false

lemma Drill.Ledger.isDrillCall {σ : Type} {d : Drill} {left first : Nat} {r : Drill.Run σ}
    (h : d.Ledger left first r) : ∀ e ∈ r.trace.calls, e.isDrillCall = true := by
  intro e he
  rw [h.calls, List.mem_append, List.mem_flatMap] at he
  rcases he with ⟨x, -, he⟩ | he
  · rw [exchange, queries] at he
    split_ifs at he <;> simp at he
    · rcases he with rfl | rfl | rfl <;> rfl
    · rcases he with rfl | rfl <;> rfl
  · cases hending : r.ending <;> simp_all [Ending.query, Event.isDrillCall]

namespace Session

variable {σ : Type}

/-- The state behind the first query. -/
def queried (w : Wallet σ) (s : Drill.State σ) : Drill.State σ := s.after (w.balances s.wallet)

/-- The state behind the unlocking. -/
def unlocked (config : Config) (w : Wallet σ) (s : Drill.State σ) : Drill.State σ :=
  (queried w s).after (w.unlock config.password (queried w s).wallet)

/-- There is a ceiling for the amounts: the configured one, or one made of the balance. -/
def HasCeiling (config : Config) (b : Balances) : Prop :=
  Binary64.zero.lt config.maxAmount = true ∨ b.spendable? config.account ≠ none

/-- The first thing that goes wrong, with its failure, the calls up to it and the bytes written. -/
inductive Obstacle (config : Config) (order : Order) (w : Wallet σ) (capacity : Capacity)
    (s : Drill.State σ) : Failure → List Event → List UInt8 → Prop
  | query {f : Failure} (refused : (w.balances s.wallet).result = .error f) :
      Obstacle config order w capacity s f [.balances] []
  | account {b : Balances} (answered : (w.balances s.wallet).result = .ok b)
      (bare : ¬HasCeiling config b) :
      Obstacle config order w capacity s (.accountNotListed config.account) [.balances] []
  | addresses {b : Balances} (answered : (w.balances s.wallet).result = .ok b)
      (ceiling : HasCeiling config b) (nowhere : config.addresses = []) :
      Obstacle config order w capacity s .noAddresses [.balances] []
  | unlock {b : Balances} {f : Failure} (answered : (w.balances s.wallet).result = .ok b)
      (ceiling : HasCeiling config b) (somewhere : config.addresses ≠ [])
      (refused : (w.unlock config.password (queried w s).wallet).result = .error f) :
      Obstacle config order w capacity s f [.balances, .unlock config.password] []
  | header {b : Balances} {code : Int32} {n : Nat}
      (answered : (w.balances s.wallet).result = .ok b)
      (ceiling : HasCeiling config b) (somewhere : config.addresses ≠ [])
      (opened : (w.unlock config.password (queried w s).wallet).result = .ok code)
      (limited : capacity = .bytes n) (short : n < (header order.count).length) :
      Obstacle config order w capacity s (.notWritten .notAllWritten)
        [.balances, .unlock config.password] ((header order.count).take n)

/-- Nothing has gone wrong in front of a drill. -/
structure Opened (config : Config) (order : Order) (w : Wallet σ) (capacity : Capacity)
    (s : Drill.State σ) (d : Drill) : Prop where
  prepared : ∃ b, (w.balances s.wallet).result = .ok b ∧
    prepare config order (b.spendable? config.account) = .ok d
  unlocked : ∃ code, (w.unlock config.password (queried w s).wallet).result = .ok code
  written : capacity.write (header order.count) = (header order.count, true)

variable {config : Config} {order : Order} {w : Wallet σ} {capacity : Capacity}
  {s : Drill.State σ}

lemma prepare_bare {b : Balances} (h : ¬HasCeiling config b) :
    prepare config order (b.spendable? config.account) =
      .error (.accountNotListed config.account) := by
  simp only [HasCeiling, not_or, not_not] at h
  simp [prepare, Plan.ofConfig, Plan.ceilingOf, h.1, h.2, Except.map]

/-- With a ceiling, only the addresses can be missing. -/
lemma prepare_ceiling (order : Order) {b : Balances} (h : HasCeiling config b) :
    ∃ plan : Plan, plan.addresses = config.addresses ∧
      prepare config order (b.spendable? config.account) = Drill.ofPlan plan true := by
  have hc : ∃ x, Plan.ceilingOf config (b.spendable? config.account) = .ok x := by
    unfold Plan.ceilingOf
    split_ifs with hm
    · exact ⟨_, rfl⟩
    · obtain ⟨x, hx⟩ := Option.ne_none_iff_exists'.mp (h.resolve_left hm)
      rw [hx]
      exact ⟨_, rfl⟩
  obtain ⟨x, hx⟩ := hc
  refine ⟨⟨config.account, config.addresses, x, config.minConfirmations, order.stopOnFailure,
    order.checkBalance⟩, rfl, ?_⟩
  simp [prepare, Plan.ofConfig, hx, Except.map]

lemma prepare_nowhere (order : Order) {b : Balances} (h : HasCeiling config b)
    (nowhere : config.addresses = []) :
    prepare config order (b.spendable? config.account) = .error .noAddresses := by
  obtain ⟨plan, hplan, hprepare⟩ := prepare_ceiling order h
  rw [hprepare, Drill.ofPlan, dif_neg]
  rw [hplan, nowhere]
  exact fun h => h rfl

lemma prepare_somewhere (order : Order) {b : Balances} (h : HasCeiling config b)
    (somewhere : config.addresses ≠ []) :
    ∃ d, prepare config order (b.spendable? config.account) = .ok d := by
  obtain ⟨plan, hplan, hprepare⟩ := prepare_ceiling order h
  rw [← hplan] at somewhere
  rw [hprepare, Drill.ofPlan, dif_pos somewhere]
  exact ⟨_, rfl⟩

/-- A drill does what the configuration and the order say, below the ceiling of the balance. -/
lemma prepare_eq_ok {balance : Option Binary64} {d : Drill}
    (h : prepare config order balance = .ok d) :
    Plan.ceilingOf config balance = .ok d.plan.ceiling ∧
      d.plan = ⟨config.account, config.addresses, d.plan.ceiling, config.minConfirmations,
        order.stopOnFailure, order.checkBalance⟩ ∧ d.heedsStop = true := by
  unfold prepare Plan.ofConfig at h
  cases hc : Plan.ceilingOf config balance with
  | error e =>
    rw [hc] at h
    cases h
  | ok ceiling =>
    rw [hc] at h
    simp only [Except.map, Drill.ofPlan] at h
    split_ifs at h
    cases h
    exact ⟨rfl, rfl, rfl⟩

/-- A session meets an obstacle or is open. -/
lemma obstacle_or_opened (config : Config) (order : Order) (w : Wallet σ) (capacity : Capacity)
    (s : Drill.State σ) : (∃ f calls written, Obstacle config order w capacity s f calls written) ∨
      ∃ d, Opened config order w capacity s d := by
  cases answered : (w.balances s.wallet).result with
  | error f => exact .inl ⟨_, _, _, .query answered⟩
  | ok b =>
    by_cases ceiling : HasCeiling config b
    · by_cases somewhere : config.addresses = []
      · exact .inl ⟨_, _, _, .addresses answered ceiling somewhere⟩
      · cases hu : (w.unlock config.password (queried w s).wallet).result with
        | error f => exact .inl ⟨_, _, _, .unlock answered ceiling somewhere hu⟩
        | ok code =>
          obtain ⟨d, prepared⟩ := prepare_somewhere order ceiling somewhere
          have opened (hw : capacity.write (header order.count) = (header order.count, true)) :
              Opened config order w capacity s d :=
            ⟨⟨b, answered, prepared⟩, ⟨code, hu⟩, hw⟩
          cases hcap : capacity with
          | unbounded => exact .inr ⟨_, hcap ▸ opened (by rw [hcap]; rfl)⟩
          | bytes n =>
            by_cases short : n < (header order.count).length
            · exact .inl ⟨_, _, _, .header answered ceiling somewhere hu rfl short⟩
            · refine .inr ⟨_, hcap ▸ opened ?_⟩
              rw [hcap, Capacity.write, List.take_of_length_le (by omega),
                decide_eq_true (by omega)]
    · exact .inl ⟨_, _, _, .account answered ceiling⟩

/-- The events in front of an open session's drill. -/
def opening (config : Config) (w : Wallet σ) (s : Drill.State σ) (b : Balances) : Trace :=
  .balances :: ((w.balances s.wallet).events ++
    .noted (balanceNotice config.account (b.spendable? config.account)) ::
      .unlock config.password :: (w.unlock config.password (queried w s).wallet).events)

lemma calls_opening (b : Balances) :
    (opening config w s b).calls = [.balances, .unlock config.password] := by
  simp [opening, Trace.calls_cons, Event.isCall]

/-- A session that has been stopped in front of its drill: its trace is the beginning of an opening,
and the wallet has answered its calls and nothing else. -/
structure Stopped (config : Config) (w : Wallet σ) (s : Drill.State σ) (f : Failure)
    (asked : List Event) (shown : List UInt8) (o : Outcome σ) : Prop where
  result : o.result = .error f
  calls : o.trace.calls = asked
  written : o.written = shown
  trace : ∃ b, o.trace <+: opening config w s b
  state : asked = [.balances] ∧ o.state = queried w s ∨
    asked = [.balances, .unlock config.password] ∧ o.state = unlocked config w s

lemma queried_prefix (w : Wallet σ) (s : Drill.State σ) (b : Balances) :
    .balances :: (w.balances s.wallet).events <+: opening config w s b :=
  (List.prefix_cons_inj _).mpr (List.prefix_append _ _)

lemma noted_prefix (w : Wallet σ) (s : Drill.State σ) (b : Balances) :
    (.balances :: (w.balances s.wallet).events) ++
      [.noted (balanceNotice config.account (b.spendable? config.account))] <+:
        opening config w s b := by
  refine (List.prefix_cons_inj _).mpr ((List.prefix_append_right_inj _).mpr ?_)
  exact (List.prefix_cons_inj _).mpr List.nil_prefix

/-- An obstacle stops the session with its failure, its calls and its bytes. -/
lemma stopped_of_obstacle {f : Failure} {calls : List Event} {written : List UInt8}
    (h : Obstacle config order w capacity s f calls written) :
    ∃ o, run config order w capacity s = .ok o ∧ Stopped config w s f calls written o := by
  unfold run
  rw [Drill.ask_eq]
  cases h with
  | query refused =>
    rw [refused]
    refine ⟨_, rfl, rfl, ?_, rfl, ⟨[], queried_prefix w s []⟩, .inl ⟨rfl, rfl⟩⟩
    simp [Trace.calls_cons, Event.isCall]
  | @account b answered bare =>
    rw [answered]
    dsimp only
    rw [prepare_bare bare]
    refine ⟨_, rfl, rfl, ?_, rfl, ⟨b, noted_prefix w s b⟩, .inl ⟨rfl, rfl⟩⟩
    simp [Trace.calls_cons, Event.isCall]
  | @addresses b answered ceiling nowhere =>
    rw [answered]
    dsimp only
    rw [prepare_nowhere order ceiling nowhere]
    refine ⟨_, rfl, rfl, ?_, rfl, ⟨b, noted_prefix w s b⟩, .inl ⟨rfl, rfl⟩⟩
    simp [Trace.calls_cons, Event.isCall]
  | @unlock b f answered ceiling somewhere refused =>
    obtain ⟨d, prepared⟩ := prepare_somewhere order ceiling somewhere
    rw [answered]
    dsimp only
    rw [prepared]
    dsimp only
    rw [Drill.ask_eq, ← queried, refused]
    refine ⟨_, rfl, rfl, ?_, rfl, ⟨b, by simp [opening]⟩, .inr ⟨rfl, rfl⟩⟩
    simp [Trace.calls_cons, Event.isCall]
  | @header b code n answered ceiling somewhere opened limited short =>
    obtain ⟨d, prepared⟩ := prepare_somewhere order ceiling somewhere
    rw [answered]
    dsimp only
    rw [prepared]
    dsimp only
    rw [Drill.ask_eq, ← queried, opened, limited, Capacity.write, decide_eq_false (by omega)]
    refine ⟨_, rfl, rfl, ?_, rfl, ⟨b, by simp [opening]⟩, .inr ⟨rfl, rfl⟩⟩
    simp [Trace.calls_cons, Event.isCall]

lemma run_of_obstacle {f : Failure} {calls : List Event} {written : List UInt8}
    (h : Obstacle config order w capacity s f calls written) :
    ∃ o, run config order w capacity s = .ok o ∧ o.result = .error f ∧
      o.trace.calls = calls ∧ o.written = written := by
  obtain ⟨o, ho, stopped⟩ := stopped_of_obstacle h
  exact ⟨o, ho, stopped.result, stopped.calls, stopped.written⟩

/-- An open session is its drill, behind the opening. -/
lemma run_of_opened {d : Drill} (h : Opened config order w capacity s d) :
    ∃ b, run config order w capacity s =
      match d.run w (Limit.ofCount order.count) (unlocked config w s) with
      | .error e => .error e
      | .ok r =>
        .ok ⟨.ok r.tally, header order.count, r.state, opening config w s b ++ r.trace⟩ := by
  obtain ⟨⟨b, answered, prepared⟩, ⟨code, opened⟩, written⟩ := h
  refine ⟨b, ?_⟩
  unfold run
  rw [Drill.ask_eq, answered]
  dsimp only
  rw [prepared]
  dsimp only
  rw [Drill.ask_eq, ← queried, opened, written, ← unlocked]
  dsimp only
  cases d.run w (Limit.ofCount order.count) (unlocked config w s) with
  | error e => rfl
  | ok r => simp [opening]

/-- The calls in front of a drill begin with the query, and unlock at most once. -/
lemma Obstacle.front {f : Failure} {calls : List Event} {written : List UInt8}
    (h : Obstacle config order w capacity s f calls written) :
    ∃ front, calls = .balances :: front ∧ (front = [] ∨ front = [.unlock config.password]) := by
  cases h
  case query | account | addresses => exact ⟨[], rfl, .inl rfl⟩
  case unlock | header => exact ⟨_, rfl, .inr rfl⟩

lemma mem_calls_of_isPayment {e : Event} {t : Trace} (he : e ∈ t) (hp : e.isPayment = true) :
    e ∈ t.calls := by
  refine List.mem_filter.mpr ⟨he, ?_⟩
  cases e <;> first | rfl | cases hp

/-- No money moves in front of an obstacle. -/
lemma Obstacle.unpaid {f : Failure} {t : Trace} {written : List UInt8}
    (h : Obstacle config order w capacity s f t.calls written) :
    ∀ e ∈ t, e.isPayment = false := by
  intro e he
  by_contra hp
  rw [Bool.not_eq_false] at hp
  obtain ⟨front, hc, hfront⟩ := h.front
  have hmem := mem_calls_of_isPayment he hp
  rw [hc, List.mem_cons] at hmem
  rcases hmem with rfl | hmem
  · cases hp
  rcases hfront with rfl | rfl
  · cases hmem
  · rw [List.mem_singleton] at hmem
    subst hmem
    cases hp

/-- How a session that returns has come about. -/
lemma run_eq_ok {o : Outcome σ} (h : run config order w capacity s = .ok o) :
    (∃ f, o.result = .error f ∧ Obstacle config order w capacity s f o.trace.calls o.written) ∨
      ∃ d b r, Opened config order w capacity s d ∧
        d.run w (Limit.ofCount order.count) (unlocked config w s) = .ok r ∧
          o = ⟨.ok r.tally, header order.count, r.state, opening config w s b ++ r.trace⟩ := by
  rcases obstacle_or_opened config order w capacity s with ⟨f, calls, written, hob⟩ | ⟨d, hop⟩
  · obtain ⟨o', ho', hf, hc, hw⟩ := run_of_obstacle hob
    cases Except.ok.inj (h.symm.trans ho')
    exact .inl ⟨f, hf, by rwa [hc, hw]⟩
  · obtain ⟨b, hb⟩ := run_of_opened hop
    rw [h] at hb
    cases hr : d.run w (Limit.ofCount order.count) (unlocked config w s) with
    | error e =>
      rw [hr] at hb
      cases hb
    | ok r =>
      rw [hr] at hb
      exact .inr ⟨d, b, r, hop, hr, Except.ok.inj hb⟩

/-- What a session does and does not do, whatever stands in its way. -/
structure Guarded (config : Config) (order : Order) (w : Wallet σ) (capacity : Capacity)
    (s : Drill.State σ) : Prop where
  /-- First the query, then at most one unlocking, then the calls of a drill. -/
  word : ∀ o, run config order w capacity s = .ok o →
    ∃ front drill, o.trace.calls = .balances :: (front ++ drill) ∧
      (front = [] ∨ front = [.unlock config.password]) ∧ ∀ e ∈ drill, e.isDrillCall = true
  /-- Money moves only when everything in front of the drill has gone well. -/
  opened : ∀ o, run config order w capacity s = .ok o → ∀ e ∈ o.trace, e.isPayment = true →
    (∃ d, Opened config order w capacity s d) ∧ o.written = header order.count
  unpaid : ∀ o f, run config order w capacity s = .ok o → o.result = .error f →
    ∀ e ∈ o.trace, e.isPayment = false
  /-- A session fails exactly by the first obstacle, with the calls and the bytes up to it. -/
  failure : ∀ f calls written, (∃ o, run config order w capacity s = .ok o ∧
      o.result = .error f ∧ o.trace.calls = calls ∧ o.written = written) ↔
    Obstacle config order w capacity s f calls written
  /-- A session that gets stuck does so in its drill, and that as well calls nothing else. -/
  stuck : ∀ e, run config order w capacity s = .error e →
    ∃ d, Opened config order w capacity s d ∧
      d.run w (Limit.ofCount order.count) (unlocked config w s) = .error e ∧
        ∀ n c, d.loop w n 0 (unlocked config w s) = .ok c →
          ∀ e ∈ c.trace.calls, e.isDrillCall = true

/-- A session fails before any money moves, or not at all. -/
theorem run_guarded (config : Config) (order : Order) (w : Wallet σ) (capacity : Capacity)
    (s : Drill.State σ) : Guarded config order w capacity s where
  word := by
    intro o ho
    rcases run_eq_ok ho with ⟨f, -, hob⟩ | ⟨d, b, r, -, hr, rfl⟩
    · obtain ⟨front, hc, hfront⟩ := hob.front
      exact ⟨front, [], by rw [hc, List.append_nil], hfront, by simp⟩
    · obtain ⟨left, -, hl⟩ := Drill.ledger_of_run hr
      refine ⟨[.unlock config.password], r.trace.calls, ?_, .inr rfl, hl.isDrillCall⟩
      rw [Trace.calls_append, calls_opening]
      rfl
  opened := by
    intro o ho e he hp
    rcases run_eq_ok ho with ⟨f, -, hob⟩ | ⟨d, b, r, hop, -, rfl⟩
    · rw [hob.unpaid e he] at hp
      cases hp
    · exact ⟨⟨d, hop⟩, rfl⟩
  unpaid := by
    intro o f ho hf
    rcases run_eq_ok ho with ⟨f', -, hob⟩ | ⟨d, b, r, -, -, rfl⟩
    · exact hob.unpaid
    · cases hf
  failure := by
    intro f calls written
    refine ⟨?_, run_of_obstacle⟩
    rintro ⟨o, ho, hf, rfl, rfl⟩
    rcases run_eq_ok ho with ⟨f', hf', hob⟩ | ⟨d, b, r, -, -, rfl⟩
    · cases Except.error.inj (hf.symm.trans hf')
      exact hob
    · cases hf
  stuck := by
    intro e he
    rcases obstacle_or_opened config order w capacity s with ⟨f, calls, written, hob⟩ | ⟨d, hop⟩
    · obtain ⟨o, ho, -⟩ := run_of_obstacle hob
      rw [he] at ho
      cases ho
    · obtain ⟨b, hb⟩ := run_of_opened hop
      rw [he] at hb
      refine ⟨d, hop, ?_, fun n c hc =>
        (Drill.ledger_of_course (Drill.loop_eq_ok_iff.mp hc)).isDrillCall⟩
      cases hr : d.run w (Limit.ofCount order.count) (unlocked config w s) with
      | error e' =>
        rw [hr] at hb
        exact congrArg Except.error (Except.error.inj hb).symm
      | ok r =>
        rw [hr] at hb
        cases hb

/-- A configuration whose balance decides about the amounts. -/
def kiosk : Config := ⟨"pw", ["a1", "a2"], Binary64.zero, 1, "x"⟩

/-- The wallet is unlocked, but the header does not fit into twelve bytes. -/
theorem kiosk_guarded : ∃ o, run kiosk ⟨5, false, true⟩ Drill.faltering.wallet (.bytes 12)
      Drill.start = .ok o ∧ o.result = .error (.notWritten .notAllWritten) ∧
    o.trace.calls = [.balances, .unlock "pw"] ∧
      o.written = Text.Utf8.encode "unlocked\nTx ".toList :=
  ((run_guarded kiosk ⟨5, false, true⟩ Drill.faltering.wallet (.bytes 12) Drill.start).failure
    (.notWritten .notAllWritten) [.balances, .unlock "pw"] _).mpr
      (.header rfl (.inr (by decide)) (by decide) rfl rfl (by decide +kernel))

end Session

end PaymentDrill
