import PaymentDrill.Proofs.Replay

/-!
# Funded payments

A drill that checks the balance sends nothing on an old answer. Right before each send it
asks, and the report that it gets then, not an earlier one, lists the account with enough
for the very payment that is sent. One query belongs to each send; only a drill that a query
has ended has made one query more.
-/
namespace PaymentDrill

/-- The first entry that a report has for an account. -/
def Balances.Lists (b : Balances) (account : String) (e : Balance) : Prop :=
  ∃ front back, b = front ++ e :: back ∧ e.account = account ∧ ∀ x ∈ front, x.account ≠ account

lemma Balances.lists_of_spendable? {b : Balances} {account : String} {spendable : Binary64}
    (h : b.spendable? account = some spendable) :
    ∃ e, b.Lists account e ∧ e.spendable = spendable := by
  unfold spendable? at h
  obtain ⟨e, he, rfl⟩ := Option.map_eq_some_iff.mp h
  obtain ⟨hname, front, back, hb, hfront⟩ := List.find?_eq_some_iff_append.mp he
  exact ⟨e, ⟨front, back, hb, by simpa using hname, by simpa using hfront⟩, rfl⟩

/-- What covers an amount is the first entry, and neither side of the comparison is a NaN. -/
lemma Balances.lists_of_covers {b : Balances} {account : String} {amount : Binary64}
    (h : b.covers account amount = true) :
    ∃ e, b.Lists account e ∧ amount.le e.spendable = true ∧ amount ≠ .nan ∧ e.spendable ≠ .nan := by
  unfold covers at h
  split at h
  · rename_i spendable hs
    obtain ⟨e, he, rfl⟩ := lists_of_spendable? hs
    refine ⟨e, he, h, ?_, ?_⟩
    · rintro rfl
      simp at h
    · intro hnan
      simp [hnan] at h
  · cases h

namespace Drill

variable {σ : Type} {d : Drill} {w : Wallet σ} {s : State σ}

lemma covers_of_verdict {p : Payment} {answer : Except Failure Balances}
    (h : d.verdict p answer = none) :
    ∃ b, answer = .ok b ∧ b.covers d.plan.account p.amount = true := by
  unfold verdict at h
  split at h
  · rename_i b
    split_ifs at h with hc
    exact ⟨b, rfl, hc⟩
  · cases h

/-- The balances that keep a payment from being sent do not cover it. -/
lemma covers_eq_false_of_verdict {p : Payment} {answer : Except Failure Balances}
    (h : d.verdict p answer ≠ none) (b : Balances) (answered : answer = .ok b) :
    b.covers d.plan.account p.amount = false := by
  subst answered
  dsimp only [verdict] at h
  split_ifs at h with hc
  · exact absurd rfl h
  · exact eq_false_of_ne_true hc

lemma count_balances_exchange (d : Drill) (x : Payment × Int32) :
    (d.exchange x).count .balances = if d.plan.checkBalance then 1 else 0 := by
  unfold exchange queries
  split_ifs <;> simp

/-- The queries of a drill, by its books. -/
lemma Ledger.count_balances {left first : Nat} {r : Run σ} (h : Ledger d left first r)
    (checks : d.plan.checkBalance = true) :
    r.trace.calls.count .balances = r.tally.sent + if r.ending.isRefusal then 1 else 0 := by
  have hexchanges (xs : List (Payment × Int32)) :
      (xs.flatMap d.exchange).count .balances = xs.length := by
    induction xs with
    | nil => rfl
    | cons x xs ih =>
      rw [List.flatMap_cons, List.count_append, count_balances_exchange, if_pos checks, ih,
        List.length_cons, Nat.add_comm]
  rw [h.calls, List.count_append, hexchanges, h.sent, Ending.query_eq]
  split_ifs <;> rfl

/-- How the queries of a run stand to its sends. -/
structure Funded (d : Drill) (w : Wallet σ) (s : State σ) (r : Run σ) : Prop where
  /-- Right before a send there is a query whose answer covers it. -/
  send : d.plan.checkBalance = true → ∀ before t after,
    r.trace.calls = before ++ .send t :: after →
      ∃ front b e, before = front ++ [.balances] ∧
        (w.balances (s.walletAndFlag.replay w front).wallet).result = .ok b ∧
          b.Lists d.plan.account e ∧ t.amount.le e.spendable = true ∧
            t.amount ≠ .nan ∧ e.spendable ≠ .nan
  queries : d.plan.checkBalance = true →
    r.trace.count .balances = r.tally.sent + if r.ending.isRefusal then 1 else 0
  /-- A drill has ended on a check of the balance exactly if its last call is a query. -/
  refusal : r.ending.isRefusal = true ↔ r.trace.calls.getLast? = some .balances
  unchecked : d.plan.checkBalance = false → .balances ∉ r.trace

/-- A drill that checks the balance sends what the wallet has just been found to cover. -/
theorem run_funded (d : Drill) (w : Wallet σ) (limit : Limit) (s : State σ) (r : Run σ)
    (h : d.run w limit s = .ok r) : Funded d w s r := by
  obtain ⟨left, -, hl⟩ := ledger_of_run h
  refine ⟨?_, ?_, hl.refusal_iff, ?_⟩
  · intro checks before t after hcalls
    obtain ⟨past, front, back, rest, p, rfl, rfl, hplace⟩ := place_of_run h hcalls
    obtain ⟨rfl, rfl, -, verdict⟩ := hplace.turn.send
    obtain ⟨b, answered, covers⟩ := covers_of_verdict (verdict checks)
    obtain ⟨e, he⟩ := Balances.lists_of_covers covers
    exact ⟨past, b, e, by rw [queries, if_pos checks], answered, he⟩
  · intro checks
    have hcount := hl.count_balances checks
    unfold Trace.calls at hcount
    rwa [List.count_filter (by rfl)] at hcount
  · intro unchecked hmem
    have hcalls : .balances ∈ r.trace.calls := List.mem_filter.mpr ⟨hmem, rfl⟩
    obtain ⟨before, after, hsplit⟩ := List.append_of_mem hcalls
    obtain ⟨past, front, back, rest, p, rfl, rfl, hplace⟩ := place_of_run h hsplit
    have checks := hplace.turn.balances.1
    rw [unchecked] at checks
    cases checks

/-- Two sends and three queries, of which the third one cannot be started. -/
theorem faltering_funded : ∃ r, pair.run faltering.wallet (.count 5) start = .ok r ∧
    r.tally = ⟨2, 1⟩ ∧ pair.plan.checkBalance = true ∧ Funded pair faltering.wallet start r ∧
      r.trace.count .balances = r.tally.sent + if r.ending.isRefusal then 1 else 0 := by
  obtain ⟨r, hr, ht⟩ := faltering_returns
  have funded := run_funded pair faltering.wallet (.count 5) start r hr
  exact ⟨r, hr, ht, rfl, funded, funded.queries rfl⟩

end Drill

end PaymentDrill
