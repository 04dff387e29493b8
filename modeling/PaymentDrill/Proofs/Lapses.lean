import PaymentDrill.Proofs.Chronicle
import PaymentDrill.Proofs.Simulation

/-!
# Sends that cannot be started

A send that the wallet cannot start is a send that comes back with -1. If a wallet comes back
with -1 where another one cannot be started, be it always or only now and then, the drill goes
the same way with both of them; all that it loses is the notice of each such send.
-/
namespace PaymentDrill

variable {σ : Type}

/-- The second wallet comes back with -1 from some of the sends that the first cannot start. -/
structure Wallet.Mends (w v : Wallet σ) : Prop where
  balances : v.balances = w.balances
  unlock : v.unlock = w.unlock
  send : ∀ t s, v.send t s = w.send t s ∨
    (∃ f, (w.send t s).result = .error f) ∧ v.send t s = { w.send t s with result := .ok (-1) }

namespace Script

/-- The code of a send that is not started. -/
def CodeAnswer.mended : CodeAnswer → CodeAnswer
  | .notStarted _ => .code (-1)
  | a => a

/-- The script with -1 in place of some of the sends that are not started. -/
def mend (s : Script) (picked : Nat → Bool) : Script :=
  { s with sends := s.sends.mapIdx fun i a => if picked i then a.mended else a }

lemma nthOrLast_mapIdx {α : Type} (f : Nat → α → α) (as : List α) (n : Nat) (a : α) :
    nthOrLast (as.mapIdx f) n a = nthOrLast as n a ∨
      ∃ i, nthOrLast (as.mapIdx f) n a = f i (nthOrLast as n a) := by
  unfold nthOrLast
  rw [List.getElem?_mapIdx]
  cases as[n]? with
  | some b => exact .inr ⟨n, rfl⟩
  | none =>
    rcases List.eq_nil_or_concat' as with rfl | ⟨bs, b, rfl⟩
    · exact .inl rfl
    · exact .inr ⟨bs.length, by simp⟩

lemma mends_mend (s : Script) (picked : Nat → Bool) : s.wallet.Mends (s.mend picked).wallet where
  balances := rfl
  unlock := rfl
  send := by
    intro t c
    have hreply (a : CodeAnswer) (h : nthOrLast (s.mend picked).sends c.sends (.code 0) = a) :
        (s.mend picked).answerSend c = { s.answerSend c with result := a.result .send } := by
      rw [← h]
      rfl
    have hsame (h : nthOrLast (s.mend picked).sends c.sends (.code 0) =
        nthOrLast s.sends c.sends (.code 0)) : (s.mend picked).answerSend c = s.answerSend c :=
      hreply _ h
    rcases nthOrLast_mapIdx (fun i a => if picked i then CodeAnswer.mended a else a) s.sends
      c.sends (.code 0) with h | ⟨i, h⟩
    · exact .inl (hsame h)
    · split_ifs at h
      · cases ha : nthOrLast s.sends c.sends (.code 0) with
        | code code =>
          rw [ha] at h
          exact .inl (hsame (h.trans ha.symm))
        | notStarted fault =>
          rw [ha] at h
          refine .inr ⟨⟨.notStarted program .send (.other fault), ?_⟩, hreply _ h⟩
          simp only [wallet, answerSend, ha]
          rfl
      · exact .inl (hsame h)

end Script

namespace Drill

variable {d : Drill} {w v : Wallet σ} {s : State σ} {x : WalletAndFlag σ}

/-- The second trace is the first without the notices of the sends that the second wallet has
mended. Each of them names its payment, and stands in front of all that is said of it. -/
inductive Mended (w v : Wallet σ) : WalletAndFlag σ → Trace → Trace → Prop
  | nil {x : WalletAndFlag σ} : Mended w v x [] []
  | same {x : WalletAndFlag σ} {e : Event} {t t' : Trace}
      (unmended : ∀ tr, e = .send tr → v.send tr x.wallet = w.send tr x.wallet)
      (rest : Mended w v (x.call w e) t t') : Mended w v x (e :: t) (e :: t')
  | lapse {x : WalletAndFlag σ} {tr : Transfer} {p : Payment} {f : Failure} {t t' : Trace}
      (lapsed : (w.send tr x.wallet).result = .error f)
      (mended : (v.send tr x.wallet).result = .ok (-1))
      (rest : Mended w v (x.call w (.send tr)) t t') :
      Mended w v x
        (.send tr :: ((w.send tr x.wallet).events ++
          .noted (.sendNotRun p.index f) :: (p.report (-1) ++ t)))
        (.send tr :: ((w.send tr x.wallet).events ++ (p.report (-1) ++ t')))

lemma Mended.output {t t' : Trace} (h : Mended w v x t t') : t'.output = t.output := by
  induction h with
  | nil => rfl
  | same unmended rest ih => simpa [Trace.output] using ih
  | lapse lapsed mended rest ih =>
    simp only [Trace.output, List.flatMap_cons, List.flatMap_append] at ih ⊢
    rw [ih]
    rfl

lemma Mended.log {t t' : Trace} (h : Mended w v x t t') : t'.log.Sublist t.log := by
  induction h with
  | nil => exact .slnil
  | @same x e t t' unmended rest ih =>
    unfold Trace.log at ih ⊢
    rw [List.filterMap_cons, List.filterMap_cons]
    cases e.notice? with
    | none => exact ih
    | some n => exact ih.cons_cons n
  | lapse lapsed mended rest ih =>
    simp only [Trace.log, List.filterMap_cons, List.filterMap_append] at ih ⊢
    exact ((ih.append_left _).cons _).append_left _

/-- A stretch without sends stays as it is. -/
lemma Mended.prepend {t u u' : Trace} (unsent : ∀ tr, .send tr ∉ t)
    (h : Mended w v (x.replay w t) u u') : Mended w v x (t ++ u) (t ++ u') := by
  induction t generalizing x with
  | nil => exact h
  | cons e t ih =>
    refine .same ?_ (ih (fun tr hmem => unsent tr (List.mem_cons_of_mem e hmem)) h)
    rintro tr rfl
    exact absurd List.mem_cons_self (unsent tr)

/-- Events that are no calls change nothing around the drill. -/
lemma replay_calls (w : Wallet σ) (x : WalletAndFlag σ) (t : Trace) :
    x.replay w t.calls = x.replay w t := by
  induction t generalizing x with
  | nil => rfl
  | cons e t ih =>
    rw [Trace.calls_cons, WalletAndFlag.replay_cons]
    split_ifs with hcall
    · rw [WalletAndFlag.replay_cons, ih]
    · rw [ih]
      cases e <;> first | rfl | exact absurd rfl hcall

lemma send_mem_iff_mem_calls {t : Trace} {tr : Transfer} : .send tr ∈ t ↔ .send tr ∈ t.calls := by
  simp [Trace.calls, Event.isCall]

/-- A stretch without calls stays as it is, and changes nothing for what follows. -/
lemma Mended.prepend_silent {t u u' : Trace} (silent : t.calls = [])
    (h : Mended w v x u u') : Mended w v x (t ++ u) (t ++ u') := by
  refine Mended.prepend ?_ ?_
  · simp [send_mem_iff_mem_calls, silent]
  · rwa [← replay_calls, silent, WalletAndFlag.replay_nil]

/-- Whether a lapse is mended makes no difference to what the wallet goes through. -/
lemma WalletAndFlag.call_mends (h : w.Mends v) (x : WalletAndFlag σ) (e : Event) :
    x.call v e = x.call w e := by
  cases e with
  | balances => rw [call, call, h.balances]
  | unlock password => rw [call, call, h.unlock]
  | send tr =>
    rcases h.send tr x.wallet with same | ⟨-, mended⟩
    · rw [call, call, same]
    · rw [call, call, mended]
      rfl
  | _ => rfl

lemma WalletAndFlag.replay_mends (h : w.Mends v) (x : WalletAndFlag σ) (es : List Event) :
    x.replay v es = x.replay w es := by
  induction es generalizing x with
  | nil => rfl
  | cons e es ih => rw [replay_cons, replay_cons, call_mends h, ih]

/-- A drill cannot tell a wallet from one that mends it. -/
lemma simulates_of_mends (d : Drill) (h : w.Mends v) : d.Simulates w v Eq where
  balances := by
    rintro s _ rfl
    rw [h.balances]
    exact ⟨rfl, rfl, rfl⟩
  send := by
    rintro p s _ - rfl
    rcases h.send (d.transfer p) s with same | ⟨⟨f, lapsed⟩, mended⟩
    · rw [same]
      exact ⟨rfl, rfl, rfl⟩
    · rw [mended]
      exact ⟨by rw [lapsed]; rfl, rfl, rfl⟩

/-- All that is lost of a payment is the notice that it was not started. -/
lemma mended_episode (h : w.Mends v) (d : Drill) (p : Payment) {t t' : Trace}
    (rest : Mended w v (x.paid d w p) t t') :
    Mended w v x (d.episode w x p ++ t) (d.episode v x p ++ t') := by
  unfold episode
  rw [WalletAndFlag.replay_mends h, h.balances]
  set query : Trace := if d.plan.checkBalance then .balances :: (w.balances x.wallet).events else []
    with hquery
  have hcalls : query.calls = d.queries := by
    rw [hquery, queries]
    split_ifs <;> simp [Trace.calls_cons, Event.isCall]
  have hpaid : x.paid d w p = (x.replay w d.queries).call w (.send (d.transfer p)) := by
    rw [WalletAndFlag.paid, WalletAndFlag.replay_append]
    rfl
  simp only [List.append_assoc, List.cons_append]
  refine Mended.prepend ?_ ?_
  · intro tr hmem
    rw [send_mem_iff_mem_calls, hcalls, queries] at hmem
    split_ifs at hmem <;> simp at hmem
  rw [← replay_calls, hcalls]
  rw [hpaid] at rest
  set y := x.replay w d.queries
  rcases h.send (d.transfer p) y.wallet with same | ⟨⟨f, lapsed⟩, mended⟩
  · rw [same]
    refine .same (fun tr htr => by rw [← Event.send.inj htr, same]) ?_
    refine .prepend_silent (Reply.calls_events _) (.prepend_silent (calls_lapse _ _) ?_)
    refine .prepend ?_ ?_
    · simp [send_mem_iff_mem_calls]
    · rw [← replay_calls, calls_report]
      exact rest
  · have code : (v.send (d.transfer p) y.wallet).result = .ok (-1) := by rw [mended]
    have words :
        (v.send (d.transfer p) y.wallet).events = (w.send (d.transfer p) y.wallet).events := by
      rw [mended]
      rfl
    rw [code, lapsed, words]
    simpa [lapse, codeOf] using Mended.lapse lapsed code rest

/-- All that is lost of a chronicle are the notices of sends that were not started. -/
lemma mended_chronicle (h : w.Mends v) (d : Drill) (ps : List Payment) (x : WalletAndFlag σ)
    {t t' : Trace} (rest : Mended w v (ps.foldl (WalletAndFlag.paid d w) x) t t') :
    Mended w v x (d.chronicle w x ps ++ t) (d.chronicle v x ps ++ t') := by
  induction ps generalizing x with
  | nil => exact rest
  | cons p ps ih =>
    have hpaid : x.paid d v p = x.paid d w p := WalletAndFlag.replay_mends h x _
    rw [chronicle, chronicle, hpaid, List.append_assoc, List.append_assoc]
    exact mended_episode h d p (ih (x.paid d w p) rest)

/-- What a run loses by the mending of lapses. -/
structure Run.Mended (w v : Wallet σ) (s : State σ) (r r' : Run σ) : Prop where
  tally : r'.tally = r.tally
  ending : r'.ending = r.ending
  /-- The wallet, the stream and the flag end up the same. -/
  state : r'.state = r.state
  /-- All requests and settlements are the same, codes included. -/
  calls : r'.trace.calls = r.trace.calls
  output : r'.trace.output = r.trace.output
  trace : Drill.Mended w v s.walletAndFlag r.trace r'.trace
  log : r'.trace.log.Sublist r.trace.log

lemma epilogue_mends (h : w.Mends v) (x : WalletAndFlag σ) (last : Option (Payment × Int32))
    (ending : Ending) : epilogue v x last ending = epilogue w x last ending := by
  cases ending <;> simp only [epilogue, h.balances]

/-- No payment is sent behind the last one. -/
lemma send_not_mem_epilogue (x : WalletAndFlag σ) (last : Option (Payment × Int32))
    (ending : Ending) (tr : Transfer) : .send tr ∉ epilogue w x last ending := by
  rw [send_mem_iff_mem_calls]
  cases ending with
  | limit | stop => exact List.not_mem_nil
  | failure => cases last <;> exact List.not_mem_nil
  | short | unknown =>
    have hfarewell (answer : Except Failure Balances) : Trace.calls (farewell answer) = [] := by
      cases answer <;> rfl
    simp [epilogue, Trace.calls_cons, Event.isCall, hfarewell]

lemma mended_of_alike (h : w.Mends v) {limit : Limit} {r r' : Run σ}
    (hr : d.run w limit s = .ok r) (hr' : d.run v limit s = .ok r') (alike : r.Alike Eq r') :
    r.Mended w v s r' := by
  have state : r'.state = r.state := by
    obtain ⟨stream, wallet, stop⟩ := alike.state
    cases hs : r.state
    cases hs' : r'.state
    simp_all
  have settlements : r'.trace.settlements = r.trace.settlements := by
    rw [← Trace.filterMap_settled?_calls, ← alike.calls, Trace.filterMap_settled?_calls]
  have trace : Drill.Mended w v s.walletAndFlag r.trace r'.trace := by
    have closing : d.closing r' = d.closing r := by
      rw [closing, closing, state, alike.tally]
    have paid : WalletAndFlag.paid d v = WalletAndFlag.paid d w := by
      funext x p
      exact WalletAndFlag.replay_mends h x _
    rw [run_trace_eq hr, run_trace_eq hr', settlements, closing, paid, ← alike.ending,
      List.append_assoc, List.append_assoc]
    refine mended_chronicle h d _ _ ?_
    rw [epilogue_mends h]
    refine .prepend (send_not_mem_epilogue _ _ _) ?_
    rw [← List.append_nil (d.closing r)]
    exact .prepend_silent (calls_closing d r) .nil
  exact ⟨alike.tally.symm, alike.ending.symm, state, alike.calls.symm, trace.output, trace,
    trace.log⟩

/-- A send that cannot be started is a send that comes back with -1. Scripted wallets are
mended by putting -1 in place of any of their sends that are not started. -/
theorem run_mended :
    (∀ {σ : Type} (d : Drill) (w v : Wallet σ) (limit : Limit) (s : State σ), w.Mends v →
      Both (Run.Mended w v s) (d.run w limit s) (d.run v limit s)) ∧
    ∀ (script : Script) (picked : Nat → Bool), script.wallet.Mends (script.mend picked).wallet := by
  refine ⟨?_, Script.mends_mend⟩
  intro σ d w v limit s h
  have alike : s.Alike Eq s := ⟨rfl, rfl, rfl⟩
  exact (run_alike (simulates_of_mends d h) alike limit).mono fun r r' hr hr' =>
    mended_of_alike h hr hr'

/-- The faltering wallet, whose second send comes back with -1 when it is mended. -/
theorem faltering_mended : ∃ r r', pair.run faltering.wallet (.count 5) start = .ok r ∧
    pair.run (faltering.mend (· = 1)).wallet (.count 5) start = .ok r' ∧
      (faltering.mend (· = 1)).sends = [.code 0, .code (-1)] ∧
        r'.tally = ⟨2, 1⟩ ∧ r.Mended faltering.wallet (faltering.mend (· = 1)).wallet start r' := by
  obtain ⟨r, hr, ht⟩ := faltering_returns
  have both := run_mended.1 pair faltering.wallet _ (.count 5) start
    (run_mended.2 faltering (· = 1))
  rw [hr] at both
  rcases both.error_or_ok with ⟨e, he, -⟩ | ⟨_, r', he, hr', mended⟩
  · cases he
  · cases Except.ok.inj he
    exact ⟨r, r', hr, hr', rfl, mended.tally.trans ht, mended⟩

end Drill

end PaymentDrill
