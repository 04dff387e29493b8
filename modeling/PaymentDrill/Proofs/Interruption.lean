import PaymentDrill.Proofs.Funding
import PaymentDrill.Proofs.Opening

/-!
# Interruptions

How soon a raised flag takes effect. The flag goes up between drills or during a call, and
a drill looks at it in front of each payment. So a call that the flag goes up at is the last
one of its turn, but for the send that a query has just allowed, and the turn is the last one
of its drill. As no drill lowers the flag, none sends anything from then on.
-/
namespace PaymentDrill

namespace Drill

variable {σ : Type} {d : Drill} {w : Wallet σ} {s : State σ}

/-- Drills one after the other, each with a limit of its own. -/
def rounds (d : Drill) (w : Wallet σ) : List Limit → State σ → Except Stuck (List (Run σ))
  | [], _ => .ok []
  | limit :: limits, s =>
    match d.run w limit s with
    | .error e => .error e
    | .ok r =>
      match d.rounds w limits r.state with
      | .error e => .error e
      | .ok rs => .ok (r :: rs)

/-- A run that has left everything as it was. -/
structure Run.Idle (s : State σ) (r : Run σ) : Prop where
  tally : r.tally = .zero
  state : r.state = s
  trace : r.trace = [.noted (.stopped 0)]

/-- Drills that find the flag up are idle, and leave it up for those behind them. -/
lemma rounds_of_up (d : Drill) (w : Wallet σ) (limits : List Limit)
    (up : (d.heedsStop && s.stop) = true) :
    ∃ rs, d.rounds w limits s = .ok rs ∧ rs.length = limits.length ∧ ∀ r ∈ rs, r.Idle s := by
  induction limits with
  | nil => exact ⟨[], rfl, rfl, by simp⟩
  | cons limit limits ih =>
    obtain ⟨ending, hr⟩ := d.run_of_up w limit up
    obtain ⟨rs, hrs, hlength, hidle⟩ := ih
    refine ⟨⟨.zero, ending, s, [.noted (.stopped 0)]⟩ :: rs, ?_, by simp [hlength], ?_⟩
    · simp only [rounds, hr, hrs]
    · intro r hmem
      rcases List.mem_cons.mp hmem with rfl | hmem
      · exact ⟨rfl, rfl, rfl⟩
      · exact hidle r hmem

/-- No turn sends more than one payment. -/
lemma Turn.sends_le_one {x : WalletAndFlag σ} {p : Payment} {calls : List Event}
    (h : Turn d w x p calls) : (calls.filterMap Event.transfer?).length ≤ 1 := by
  cases h with
  | refused => exact Nat.zero_le 1
  | sent => simp [transfers_exchange]

/-- What a drill still does once the flag has gone up. -/
structure Prompt (d : Drill) (w : Wallet σ) (s : State σ) (r : Run σ) : Prop where
  /-- A flag that a call has raised stays up. -/
  flag : ∀ before after, r.trace.calls = before ++ after →
    (s.walletAndFlag.replay w before).stop = true → r.state.stop = true
  /-- A flag that is up behind a send lets the payment be settled and counted, no more. -/
  send : ∀ before t after, r.trace.calls = before ++ .send t :: after →
    (s.walletAndFlag.replay w (before ++ [.send t])).stop = true →
      ∃ p, t = d.transfer p ∧
        after = [.settled p (codeOf (w.send t (s.walletAndFlag.replay w before).wallet).result)] ∧
          r.tally.sent = (before.filterMap Event.transfer?).length + 1
  /-- A flag that is up behind a query lets the payment be sent that the query is about, if
  the answer covers it. -/
  query : ∀ before after, r.trace.calls = before ++ .balances :: after →
    (s.walletAndFlag.replay w (before ++ [.balances])).stop = true →
      ∃ p, Payment.IsNext d.plan.addresses d.plan.ceiling 0 s.stream
          (before.filterMap Event.transfer?).length p ∧
        ((∃ b, (w.balances (s.walletAndFlag.replay w before).wallet).result = .ok b ∧
            b.covers d.plan.account p.amount = true ∧
              ∃ code, after = [.send (d.transfer p), .settled p code]) ∨
          (∀ b, (w.balances (s.walletAndFlag.replay w before).wallet).result = .ok b →
            b.covers d.plan.account p.amount = false) ∧ after = [])
  sends_le_one : ∀ before after, r.trace.calls = before ++ after →
    (s.walletAndFlag.replay w before).stop = true →
      (after.filterMap Event.transfer?).length ≤ 1

/-- Whatever follows a call that leaves the flag up is in the turn of that call. -/
lemma place_of_up {limit : Limit} {r : Run σ} (heeds : d.heedsStop = true)
    (h : d.run w limit s = .ok r) {before after : List Event} {e : Event}
    (hcalls : r.trace.calls = before ++ e :: after)
    (up : (s.walletAndFlag.replay w (before ++ [e])).stop = true) :
    ∃ past front p, before = past ++ front ∧
      Place d w s 0 past (front ++ e :: after) [] p := by
  obtain ⟨past, front, back, rest, p, rfl, rfl, hplace⟩ := place_of_run h hcalls
  have hrest : rest = [] := by
    refine hplace.last ?_
    rw [heeds, Bool.true_and]
    have hup := WalletAndFlag.stop_replay (w := w) up back
    rwa [← WalletAndFlag.replay_append, List.append_assoc, List.append_assoc,
      List.singleton_append] at hup
  subst hrest
  rw [List.append_nil]
  exact ⟨past, front, p, rfl, hplace⟩

lemma prompt_of_run {limit : Limit} {r : Run σ} (heeds : d.heedsStop = true)
    (h : d.run w limit s = .ok r) : Prompt d w s r where
  flag := by
    intro before after hcalls up
    have hstate := congrArg WalletAndFlag.stop (walletAndFlag_of_run h)
    rw [hcalls, WalletAndFlag.replay_append] at hstate
    exact hstate.trans (WalletAndFlag.stop_replay up after)
  send := by
    intro before t after hcalls up
    obtain ⟨past, front, p, rfl, hplace⟩ := place_of_up heeds h hcalls up
    obtain ⟨rfl, rfl, rfl, -⟩ := hplace.turn.send
    refine ⟨p, rfl, ?_, ?_⟩
    · rw [codeFrom, WalletAndFlag.replay_append]
    · obtain ⟨left, -, hl⟩ := ledger_of_run h
      have hlength := congrArg List.length hl.transfers
      rw [List.length_map, hl.sent, ← Trace.filterMap_transfer?_calls, hcalls,
        List.filterMap_append, List.length_append] at hlength
      exact hlength.symm
  query := by
    intro before after hcalls up
    obtain ⟨past, front, p, rfl, hplace⟩ := place_of_up heeds h hcalls up
    obtain ⟨-, rfl, hafter⟩ := hplace.turn.balances
    rw [List.append_nil]
    refine ⟨p, hplace.next, ?_⟩
    split_ifs at hafter with verdict
    · obtain ⟨b, answered, covers⟩ := covers_of_verdict verdict
      exact .inl ⟨b, answered, covers, _, hafter⟩
    · exact .inr ⟨covers_eq_false_of_verdict verdict, hafter⟩
  sends_le_one := by
    intro before after hcalls up
    rcases List.eq_nil_or_concat' before with rfl | ⟨xs, e, rfl⟩
    · -- no call has raised the flag, so the drill has begun with it
      obtain ⟨ending, hidle⟩ := d.run_of_up w limit (s := s) (by rw [heeds]; exact up)
      cases Except.ok.inj (h.symm.trans hidle)
      rw [Trace.calls_noted, Trace.calls_nil, List.nil_append] at hcalls
      rw [← hcalls]
      exact Nat.zero_le 1
    · rw [List.append_assoc, List.singleton_append] at hcalls
      obtain ⟨past, front, p, rfl, hplace⟩ := place_of_up heeds h hcalls up
      have hturn := hplace.turn.sends_le_one
      have hback : after.Sublist (front ++ e :: after) :=
        (List.sublist_cons_self e after).trans (List.sublist_append_right _ _)
      exact Nat.le_trans (hback.filterMap _).length_le hturn

/-- A run with the flag up in the end has no use for a greater limit, nor for having one. -/
lemma run_of_stopped {n : Nat} {r : Run σ} (heeds : d.heedsStop = true)
    (h : d.run w (.count n) s = .ok r) (up : r.state.stop = true) :
    (∀ m, n ≤ m → ∃ ending, d.run w (.count m) s = .ok { r with ending }) ∧
      (n < horizon → ∃ ending, d.run w .unbounded s = .ok { r with ending }) := by
  obtain ⟨c, hc, rfl⟩ := run_count_eq_ok_iff.mp h
  have longer (k : Nat) : ∃ ending, (0 < k → ending ≠ .limit) ∧
      d.loop w (n + k) 0 s = .ok { c with ending } := by
    rw [loop_add, hc]
    dsimp only
    split_ifs with limit
    · refine ⟨if k = 0 then .limit else .stop, ?_, ?_⟩
      · intro hk
        rw [if_neg (Nat.ne_of_gt hk)]
        exact nofun
      · rw [loop_of_up w k _ (by rw [heeds]; exact up)]
        simp [Except.map, Run.andThen, Tally.plus_zero]
    · exact ⟨c.ending, fun _ => limit, rfl⟩
  constructor
  · intro m hm
    obtain ⟨k, rfl⟩ := Nat.exists_eq_add_of_le hm
    obtain ⟨ending, -, hk⟩ := longer k
    exact ⟨ending, run_count_eq_ok_iff.mpr ⟨_, hk, rfl⟩⟩
  · intro hn
    obtain ⟨ending, ended, hk⟩ := longer (horizon - n)
    rw [Nat.add_sub_cancel' (Nat.le_of_lt hn)] at hk
    exact ⟨ending, run_unbounded_eq_ok_iff.mpr ⟨_, hk, ended (Nat.sub_pos_of_lt hn), rfl⟩⟩

end Drill

namespace Session

variable {σ : Type} {config : Config} {order : Order} {w : Wallet σ} {capacity : Capacity}
  {s : Drill.State σ}

/-- How a session ends whose flag is up before its drill: by what stands in its way, or by the
drill, which it has done everything for and which sends nothing. -/
inductive Hushed (config : Config) (order : Order) (w : Wallet σ) (capacity : Capacity)
    (s : Drill.State σ) (o : Outcome σ) : Prop
  | obstacle {f : Failure} (failed : o.result = .error f)
      (meets : Obstacle config order w capacity s f o.trace.calls o.written)
  | opened {d : Drill} (opened : Opened config order w capacity s d)
      (sent : o.result = .ok .zero) (written : o.written = header order.count)
      (state : o.state = unlocked config w s)
      (calls : o.trace.calls = [.balances, .unlock config.password])

lemma Hushed.calls {o : Outcome σ} (h : Hushed config order w capacity s o) :
    ∃ front, o.trace.calls = .balances :: front ∧
      (front = [] ∨ front = [.unlock config.password]) := by
  cases h with
  | obstacle failed meets => exact meets.front
  | opened opened sent written state calls => exact ⟨_, calls, .inr rfl⟩

/-- No payment is sent or settled, and there is no query but the first. -/
lemma Hushed.unpaid {o : Outcome σ} (h : Hushed config order w capacity s o) :
    o.trace.transfers = [] ∧ o.trace.settlements = [] ∧ o.trace.calls.count .balances = 1 := by
  obtain ⟨front, hcalls, hfront⟩ := h.calls
  rw [← Trace.filterMap_transfer?_calls, ← Trace.filterMap_settled?_calls, hcalls]
  rcases hfront with rfl | rfl <;> exact ⟨rfl, rfl, rfl⟩

/-- A session whose flag goes up before its drill comes to its end, and pays nothing. -/
lemma run_hushed (config : Config) (order : Order) (w : Wallet σ) (capacity : Capacity)
    (s : Drill.State σ) (up : (unlocked config w s).stop = true) :
    ∃ o, run config order w capacity s = .ok o ∧ Hushed config order w capacity s o := by
  rcases obstacle_or_opened config order w capacity s with ⟨f, calls, written, hob⟩ | ⟨d, hop⟩
  · obtain ⟨o, ho, hf, rfl, rfl⟩ := run_of_obstacle hob
    exact ⟨o, ho, .obstacle hf hob⟩
  · obtain ⟨b, hb⟩ := run_of_opened hop
    obtain ⟨b', -, prepared⟩ := hop.prepared
    obtain ⟨-, -, heeds⟩ := prepare_eq_ok prepared
    obtain ⟨ending, hr⟩ := d.run_of_up w (Limit.ofCount order.count)
      (s := unlocked config w s) (by rw [heeds]; exact up)
    rw [hr] at hb
    refine ⟨_, hb, .opened hop rfl rfl rfl ?_⟩
    rw [Trace.calls_append, calls_opening]
    rfl

end Session

/-- Interruptions are prompt. A drill that finds the flag up does nothing, and so do all that
come behind it; one that the flag goes up in does no more than the payment in hand, and comes
to its end there, however many payments are left; and a session whose flag goes up before its
drill does everything but pay. -/
theorem interruptions_prompt {σ : Type} (d : Drill) (w : Wallet σ) (heeds : d.heedsStop = true) :
    (∀ limits (s : Drill.State σ), s.stop = true → ∃ rs, d.rounds w limits s = .ok rs ∧
      rs.length = limits.length ∧ ∀ r ∈ rs, r.Idle s) ∧
    (∀ limit s r, d.run w limit s = .ok r → d.Prompt w s r) ∧
    (∀ n s r, d.run w (.count n) s = .ok r → r.state.stop = true →
      (∀ m, n ≤ m → ∃ ending, d.run w (.count m) s = .ok { r with ending }) ∧
        (n < Drill.horizon → ∃ ending, d.run w .unbounded s = .ok { r with ending })) ∧
    ∀ config order capacity (s : Drill.State σ),
      (s.stop = true ∨ (w.balances s.wallet).interrupt = true ∨
        (w.unlock config.password (Session.queried w s).wallet).interrupt = true) →
      ∃ o, Session.run config order w capacity s = .ok o ∧
        Session.Hushed config order w capacity s o ∧ o.trace.transfers = [] ∧
          o.trace.settlements = [] ∧ o.trace.calls.count .balances = 1 := by
  refine ⟨?_, ?_, ?_, ?_⟩
  · intro limits s up
    exact d.rounds_of_up w limits (by rw [heeds, up]; rfl)
  · intro limit s r hr
    exact Drill.prompt_of_run heeds hr
  · intro n s r hr up
    exact Drill.run_of_stopped heeds hr up
  · intro config order capacity s raised
    have hstop : (Session.unlocked config w s).stop = (s.stop || (w.balances s.wallet).interrupt ||
        (w.unlock config.password (Session.queried w s).wallet).interrupt) := rfl
    have up : (Session.unlocked config w s).stop = true := by
      rw [hstop]
      rcases raised with up | up | up <;> simp [up]
    obtain ⟨o, ho, hushed⟩ := Session.run_hushed config order w capacity s up
    exact ⟨o, ho, hushed, hushed.unpaid⟩

/-- The faltering wallet, with an interrupt during its first query. -/
def Drill.hasty : Script := { faltering with interruptsAtQuery := [1] }

/-- The payment of the query is still sent, and no other. A session makes that query before its
drill, and sends nothing. -/
theorem hasty_prompt :
    (∃ r, Drill.pair.run Drill.hasty.wallet (.count 5) Drill.start = .ok r ∧
      r.tally = ⟨1, 0⟩ ∧ r.state.stop = true ∧ Drill.pair.Prompt Drill.hasty.wallet Drill.start r ∧
      (∃ ending, Drill.pair.run Drill.hasty.wallet .unbounded Drill.start =
        .ok { r with ending }) ∧
      ∃ rs, Drill.pair.rounds Drill.hasty.wallet [.count 5, .unbounded] r.state = .ok rs ∧
        rs.length = 2 ∧ ∀ q ∈ rs, q.Idle r.state) ∧
    ∃ o, Session.run Session.kiosk ⟨5, false, true⟩ Drill.hasty.wallet .unbounded Drill.start =
      .ok o ∧ o.trace.transfers = [] := by
  obtain ⟨again, prompt, ended, session⟩ := interruptions_prompt Drill.pair Drill.hasty.wallet rfl
  obtain ⟨o, ho, -, unsent, -⟩ :=
    session Session.kiosk ⟨5, false, true⟩ .unbounded Drill.start (.inr (.inl rfl))
  obtain ⟨r, hr, hlast⟩ : ∃ r, Drill.pair.run Drill.hasty.wallet (.count 5) Drill.start = .ok r ∧
      (r.tally, r.state.stop) = (⟨1, 0⟩, true) :=
    Drill.exists_ok_of_toOption
      (f := fun r : Drill.Run _ => (r.tally, r.state.stop)) (by decide +kernel)
  obtain ⟨tally, up⟩ := Prod.mk.inj hlast
  exact ⟨⟨r, hr, tally, up, prompt _ _ _ hr, (ended 5 _ _ hr up).2 (by decide +kernel),
    again _ _ up⟩, o, ho, unsent⟩

end PaymentDrill
