import PaymentDrill.Proofs.Opening

/-!
# Independence of the payments

What a wallet answers has no influence on what it is asked to pay. The payments of a
run are a beginning of the series that its addresses, its ceiling and its stream lay
down, so two runs that agree on these send the same payments, one of them perhaps
fewer. In a session the ceiling may come from the first report; nothing after it counts.
-/
namespace PaymentDrill

/-- The payments of a trace, with the place at which each was sent as its index. -/
def Trace.payments (t : Trace) : List Payment :=
  t.transfers.mapIdx fun i x => ⟨i, x.address, x.amount⟩

/-- Of two lists, one is the beginning of the other. -/
def Aligned {α : Type} (xs ys : List α) : Prop := xs <+: ys ∨ ys <+: xs

lemma Payment.series_aligned {addresses : List String} {ceiling : Binary64} {m n i : Nat}
    {s s₁ s₂ : Keystream} {ps qs : List Payment}
    (hm : series addresses ceiling m i s = .ok (ps, s₁))
    (hn : series addresses ceiling n i s = .ok (qs, s₂)) : Aligned ps qs := by
  rcases Nat.le_total m n with h | h
  · exact .inl (series_prefix_of_le h hm hn)
  · exact .inr (series_prefix_of_le h hn hm)

namespace Drill

variable {σ : Type} {d : Drill} {w : Wallet σ}

/-- The invariant of a course is that its payments are those of its series. -/
lemma series_of_course {left index : Nat} {s : State σ} {r : Run σ}
    (h : Course d w left index s r) :
    ∃ t, Payment.series d.plan.addresses d.plan.ceiling r.tally.sent index s.stream =
      .ok (r.trace.settlements.map (·.1), t) := by
  induction h with
  | limit => exact ⟨_, rfl⟩
  | stop up => exact ⟨_, rfl⟩
  | refused down tries verdict =>
    obtain ⟨p, stream, -, rfl⟩ := attempt_eq_ok_iff.mp tries
    rw [settlements_query]
    exact ⟨_, rfl⟩
  | failed down tries verdict failure stops =>
    obtain ⟨p, stream, hp, rfl⟩ := attempt_eq_ok_iff.mp tries
    rw [Trace.settlements_append, settlements_tried]
    exact ⟨stream, Payment.series_succ_eq_ok_iff.mpr ⟨p, stream, [], hp, rfl, rfl⟩⟩
  | sent down tries verdict unstopped rest ih =>
    obtain ⟨p, stream, hp, rfl⟩ := attempt_eq_ok_iff.mp tries
    obtain ⟨t, ht⟩ := ih
    rw [tried_settled_stream] at ht
    rw [Trace.settlements_append, settlements_tried]
    exact ⟨t, Payment.series_succ_eq_ok_iff.mpr ⟨p, stream, _, hp, ht, rfl⟩⟩

/-- What is sent is what is settled. -/
lemma Ledger.payments {left : Nat} {r : Run σ} (h : Ledger d left 0 r) :
    r.trace.payments = r.trace.settlements.map (·.1) := by
  unfold Trace.payments
  rw [h.transfers]
  apply List.ext_getElem (by simp)
  intro i hi hi'
  have hlt : i < r.trace.settlements.length := by simpa using hi'
  have hindex : (r.trace.settlements.map (·.1.index))[i]? = some i := by
    rw [h.indices, List.getElem?_range' (by rwa [← h.sent])]
    simp
  rw [List.getElem?_map, List.getElem?_eq_getElem hlt] at hindex
  have heta (p : Payment) (hp : p.index = i) : (⟨i, p.address, p.amount⟩ : Payment) = p := by
    rw [← hp]
  simp only [List.getElem_mapIdx, List.getElem_map, transfer]
  exact heta _ (Option.some.inj hindex)

lemma series_of_run {limit : Limit} {s : State σ} {r : Run σ} (h : d.run w limit s = .ok r) :
    ∃ t, Payment.series d.plan.addresses d.plan.ceiling r.tally.sent 0 s.stream =
      .ok (r.trace.payments, t) := by
  obtain ⟨left, -, hl⟩ := ledger_of_run h
  obtain ⟨left', c, -, course, rfl⟩ := run_eq_ok_iff.mp h
  obtain ⟨t, ht⟩ := series_of_course course
  refine ⟨t, ?_⟩
  rw [hl.payments, Trace.settlements_append, settlements_closing, List.append_nil]
  exact ht

end Drill

namespace Session

variable {σ : Type} {config : Config} {order : Order} {w : Wallet σ} {capacity : Capacity}
  {s : Drill.State σ}

/-- The first reports of two sessions give the same ceiling for the same greatest amount. -/
def SameCeiling {τ : Type} (config₁ config₂ : Config) (w₁ : Wallet σ) (w₂ : Wallet τ)
    (s₁ : Drill.State σ) (s₂ : Drill.State τ) : Prop :=
  config₁.maxAmount = config₂.maxAmount ∧
    (Binary64.zero.lt config₁.maxAmount = true ∨
      ∀ b₁ b₂, (w₁.balances s₁.wallet).result = .ok b₁ → (w₂.balances s₂.wallet).result = .ok b₂ →
        b₁.spendable? config₁.account = b₂.spendable? config₂.account)

lemma payments_opening (b : Balances) (t : Trace) :
    (opening config w s b ++ t).payments = t.payments := by
  unfold Trace.payments
  rw [Trace.transfers_append, ← Trace.filterMap_transfer?_calls (opening config w s b),
    calls_opening]
  rfl

lemma Obstacle.payments {f : Failure} {t : Trace} {written : List UInt8}
    (h : Obstacle config order w capacity s f t.calls written) : t.payments = [] := by
  unfold Trace.payments
  rw [← Trace.filterMap_transfer?_calls]
  obtain ⟨front, hc, rfl | rfl⟩ := h.front <;> rw [hc] <;> rfl

/-- The payments of a session are none, or those of a series with the ceiling of its first
report. -/
lemma series_of_session {o : Outcome σ} (h : run config order w capacity s = .ok o) :
    o.trace.payments = [] ∨ ∃ b ceiling n t, (w.balances s.wallet).result = .ok b ∧
      Plan.ceilingOf config (b.spendable? config.account) = .ok ceiling ∧
        Payment.series config.addresses ceiling n 0 s.stream = .ok (o.trace.payments, t) := by
  rcases run_eq_ok h with ⟨f, -, hob⟩ | ⟨d, b', r, hop, hr, rfl⟩
  · exact .inl hob.payments
  · obtain ⟨b, answered, prepared⟩ := hop.prepared
    obtain ⟨hceiling, hplan, -⟩ := prepare_eq_ok prepared
    have haddresses : d.plan.addresses = config.addresses := congrArg Plan.addresses hplan
    obtain ⟨t, ht⟩ := Drill.series_of_run hr
    rw [haddresses] at ht
    rw [payments_opening]
    exact .inr ⟨b, d.plan.ceiling, r.tally.sent, t, answered, hceiling, ht⟩

lemma SameCeiling.ceiling_eq {τ : Type} {config₁ config₂ : Config} {w₁ : Wallet σ} {w₂ : Wallet τ}
    {s₁ : Drill.State σ} {s₂ : Drill.State τ} (h : SameCeiling config₁ config₂ w₁ w₂ s₁ s₂)
    {b₁ b₂ : Balances} (h₁ : (w₁.balances s₁.wallet).result = .ok b₁)
    (h₂ : (w₂.balances s₂.wallet).result = .ok b₂) {c₁ c₂ : Binary64}
    (hc₁ : Plan.ceilingOf config₁ (b₁.spendable? config₁.account) = .ok c₁)
    (hc₂ : Plan.ceilingOf config₂ (b₂.spendable? config₂.account) = .ok c₂) : c₁ = c₂ := by
  obtain ⟨hmax, h⟩ := h
  unfold Plan.ceilingOf at hc₁ hc₂
  rw [← hmax] at hc₂
  rcases h with hpositive | hreport
  · rw [if_pos hpositive] at hc₁ hc₂
    exact Except.ok.inj (hc₁.symm.trans hc₂)
  · rw [← hreport b₁ b₂ h₁ h₂] at hc₂
    split_ifs at hc₁ hc₂
    · exact Except.ok.inj (hc₁.symm.trans hc₂)
    · cases hb : b₁.spendable? config₁.account with
      | none =>
        rw [hb] at hc₁
        cases hc₁
      | some b =>
        rw [hb] at hc₁ hc₂
        exact Except.ok.inj (hc₁.symm.trans hc₂)

end Session

/-- Payments depend on the addresses, the ceiling and the stream. Runs that agree on these
are aligned, whatever their wallets, limits and guards, and so are sessions, where a greatest
amount or the first report sets the ceiling; the index of a payment is a mere label. -/
theorem payments_aligned :
    (∀ (σ τ : Type) (d₁ d₂ : Drill) (w₁ : Wallet σ) (w₂ : Wallet τ) (limit₁ limit₂ : Limit)
      (s₁ : Drill.State σ) (s₂ : Drill.State τ) (r₁ : Drill.Run σ) (r₂ : Drill.Run τ),
      d₁.plan.addresses = d₂.plan.addresses → d₁.plan.ceiling = d₂.plan.ceiling →
      s₁.stream = s₂.stream → d₁.run w₁ limit₁ s₁ = .ok r₁ → d₂.run w₂ limit₂ s₂ = .ok r₂ →
        Aligned r₁.trace.payments r₂.trace.payments) ∧
    (∀ (σ τ : Type) (config₁ config₂ : Config) (order₁ order₂ : Order) (w₁ : Wallet σ)
      (w₂ : Wallet τ) (capacity₁ capacity₂ : Capacity) (s₁ : Drill.State σ) (s₂ : Drill.State τ)
      (o₁ : Session.Outcome σ) (o₂ : Session.Outcome τ),
      config₁.addresses = config₂.addresses → s₁.stream = s₂.stream →
      Session.SameCeiling config₁ config₂ w₁ w₂ s₁ s₂ →
      Session.run config₁ order₁ w₁ capacity₁ s₁ = .ok o₁ →
      Session.run config₂ order₂ w₂ capacity₂ s₂ = .ok o₂ →
        Aligned o₁.trace.payments o₂.trace.payments) ∧
    ∀ (addresses : List String) (ceiling : Binary64) (i j : Nat) (s : Keystream),
      (Payment.choose addresses ceiling i s).map (fun r => (r.1.address, r.1.amount, r.2)) =
        (Payment.choose addresses ceiling j s).map fun r => (r.1.address, r.1.amount, r.2) := by
  refine ⟨?_, ?_, ?_⟩
  · intro σ τ d₁ d₂ w₁ w₂ limit₁ limit₂ s₁ s₂ r₁ r₂ haddresses hceiling hstream h₁ h₂
    obtain ⟨t₁, ht₁⟩ := Drill.series_of_run h₁
    obtain ⟨t₂, ht₂⟩ := Drill.series_of_run h₂
    rw [haddresses, hceiling, hstream] at ht₁
    exact Payment.series_aligned ht₁ ht₂
  · intro σ τ config₁ config₂ order₁ order₂ w₁ w₂ capacity₁ capacity₂ s₁ s₂ o₁ o₂
      haddresses hstream hsame h₁ h₂
    rcases Session.series_of_session h₁ with hnil | ⟨b₁, c₁, n₁, t₁, hb₁, hc₁, ht₁⟩
    · rw [hnil]
      exact .inl List.nil_prefix
    rcases Session.series_of_session h₂ with hnil | ⟨b₂, c₂, n₂, t₂, hb₂, hc₂, ht₂⟩
    · rw [hnil]
      exact .inr List.nil_prefix
    rw [haddresses, hstream, hsame.ceiling_eq hb₁ hb₂ hc₁ hc₂] at ht₁
    exact Payment.series_aligned ht₁ ht₂
  · intro addresses ceiling i j s
    rw [Payment.choose_relabel addresses ceiling i j s]
    cases Payment.choose addresses ceiling j s <;> rfl

/-- A wallet that is unlocked with a complaint, no longer lists the account, and fails to send. -/
def refusing : Script where
  balances := [.entries [⟨"x", Binary64.ofNat 100⟩], .entries []]
  sends := [.code 3]
  unlock := .code 1
  interruptsAtQuery := []
  interruptsAtSend := []
  userAtSend := none

/-- The drill between two addresses, but with the other guard. -/
def Drill.brusque : Drill where
  plan := { pair.plan with checkBalance := false, stopOnFailure := true }
  addresses_ne_nil := pair.addresses_ne_nil

/-- A drill and a session each, with a faltering and with a refusing wallet. -/
theorem kiosk_aligned :
    (∃ r₁ r₂, Drill.pair.run Drill.faltering.wallet (.count 5) Drill.start = .ok r₁ ∧
      Drill.brusque.run refusing.wallet .unbounded Drill.start = .ok r₂ ∧
        r₁.tally = ⟨2, 1⟩ ∧ r₂.tally = ⟨1, 1⟩ ∧ Aligned r₁.trace.payments r₂.trace.payments) ∧
    ∃ o₁ o₂, Session.run Session.kiosk ⟨5, false, true⟩ Drill.faltering.wallet .unbounded
        Drill.start = .ok o₁ ∧
      Session.run Session.kiosk ⟨0, true, false⟩ refusing.wallet .unbounded Drill.start = .ok o₂ ∧
        o₁.result.toOption = some ⟨1, 0⟩ ∧ o₂.result.toOption = some ⟨1, 1⟩ ∧
          Aligned o₁.trace.payments o₂.trace.payments := by
  obtain ⟨r₁, hr₁, ht₁⟩ := Drill.faltering_returns
  obtain ⟨r₂, hr₂, ht₂⟩ : ∃ r, Drill.brusque.run refusing.wallet .unbounded Drill.start = .ok r ∧
      r.tally = ⟨1, 1⟩ := Drill.exists_ok_of_toOption (f := Drill.Run.tally) (by decide +kernel)
  obtain ⟨o₁, ho₁, hs₁⟩ : ∃ o, Session.run Session.kiosk ⟨5, false, true⟩ Drill.faltering.wallet
      .unbounded Drill.start = .ok o ∧ o.result.toOption = some ⟨1, 0⟩ :=
    Drill.exists_ok_of_toOption (f := fun o => Except.toOption (Session.Outcome.result o))
      (by decide +kernel)
  obtain ⟨o₂, ho₂, hs₂⟩ : ∃ o, Session.run Session.kiosk ⟨0, true, false⟩ refusing.wallet
      .unbounded Drill.start = .ok o ∧ o.result.toOption = some ⟨1, 1⟩ :=
    Drill.exists_ok_of_toOption (f := fun o => Except.toOption (Session.Outcome.result o))
      (by decide +kernel)
  refine ⟨⟨r₁, r₂, hr₁, hr₂, ht₁, ht₂, ?_⟩, o₁, o₂, ho₁, ho₂, hs₁, hs₂, ?_⟩
  · exact payments_aligned.1 _ _ Drill.pair Drill.brusque _ _ _ _ _ _ r₁ r₂ rfl rfl rfl hr₁ hr₂
  · have same : Session.SameCeiling Session.kiosk Session.kiosk Drill.faltering.wallet
        refusing.wallet Drill.start Drill.start := by
      refine ⟨rfl, .inr ?_⟩
      intro b₁ b₂ h₁ h₂
      rw [← Except.ok.inj h₁, ← Except.ok.inj h₂]
    exact payments_aligned.2.1 _ _ Session.kiosk Session.kiosk _ _ _ _ _ _ _ _ o₁ o₂ rfl rfl same
      ho₁ ho₂

end PaymentDrill
