import Mathlib.Data.List.Basic
import PaymentDrill.Proofs.Course

/-!
# Accounts of a drill

The tally of a drill against its trace. What a drill asks of the wallet is laid out
by its settlements: each payment has its query, if the plan wants one, its send and
its settling, in this order and with nothing between them, and only a drill that
ends by a query has one call more. The counts, the indices and the amounts are read
off this layout. None of it depends on how the wallet answers, or on which of its
answers ends the drill.
-/
namespace PaymentDrill.Drill

variable {σ : Type} {d : Drill} {w : Wallet σ}

/-- The query of a turn that ends the drill before a send. -/
def Ending.query : Ending → List Event
  | .short | .unknown => [.balances]
  | _ => []

/-- The books of a course of at most `left` payments from index `first` on. -/
structure Ledger (d : Drill) (left first : Nat) (r : Run σ) : Prop where
  calls : r.trace.calls = r.trace.settlements.flatMap d.exchange ++ r.ending.query
  sent : r.trace.settlements.length = r.tally.sent
  failed : r.trace.settlements.countP (·.2 ≠ 0) = r.tally.failed
  indices : r.trace.settlements.map (·.1.index) = List.range' first r.tally.sent
  sent_le : r.tally.sent ≤ left
  /-- Only the last payment of a drill that stops at failures can have failed. -/
  clean : d.plan.stopOnFailure = true → ∀ x ∈ r.trace.settlements.dropLast, x.2 = 0

/-- Only a query can keep a payment from being sent. -/
lemma queries_of_verdict {s : State σ} {p : Payment} {stream : Keystream} {ending : Ending}
    (h : (d.tried w s p stream).verdict = some ending) : d.queries = ending.query := by
  rw [tried_verdict] at h
  split_ifs at h with hb
  simp only [verdict] at h
  split at h
  · split_ifs at h
    cases h
    simp [queries, hb, Ending.query]
  · cases h
    simp [queries, hb, Ending.query]

lemma settlements_query (d : Drill) (w : Wallet σ) (s : State σ) (p : Payment)
    (stream : Keystream) : (d.tried w s p stream).query.settlements = [] := by
  rw [← Trace.filterMap_settled?_calls, tried_query_calls, queries]
  split_ifs <;> rfl

lemma settlements_tried (d : Drill) (w : Wallet σ) (s : State σ) (p : Payment)
    (stream : Keystream) :
    (d.tried w s p stream).trace.settlements = [(p, (d.tried w s p stream).code)] := by
  rw [← Trace.filterMap_settled?_calls, tried_trace_calls, exchange, queries]
  split_ifs <;> rfl

/-- A turn without a send leaves the books empty. -/
lemma ledger_nil {left first : Nat} {ending : Ending} {s : State σ} {t : Trace}
    (hc : t.calls = ending.query) (hs : t.settlements = []) :
    Ledger d left first ⟨.zero, ending, s, t⟩ where
  calls := by rw [hc, hs]; rfl
  sent := by rw [hs]; rfl
  failed := by rw [hs]; rfl
  indices := by rw [hs]; rfl
  sent_le := Nat.zero_le left
  clean := by simp [hs]

/-- A turn with a send puts its payment in front of the books of what follows. -/
lemma Ledger.cons {left first : Nat} {s : State σ} {p : Payment} {stream : Keystream} {r : Run σ}
    (h : Ledger d left (first + 1) r) (hp : p.index = first)
    (hclean : d.plan.stopOnFailure = true → (d.tried w s p stream).code ≠ 0 →
      r.trace.settlements = []) :
    Ledger d (left + 1) first { r with
      tally := r.tally.add (d.tried w s p stream).code
      trace := (d.tried w s p stream).trace ++ r.trace } := by
  have hs : ((d.tried w s p stream).trace ++ r.trace).settlements =
      (p, (d.tried w s p stream).code) :: r.trace.settlements := by
    rw [Trace.settlements_append, settlements_tried, List.singleton_append]
  refine ⟨?_, ?_, ?_, ?_, ?_, ?_⟩
  · rw [hs, Trace.calls_append, tried_trace_calls, h.calls, List.flatMap_cons, List.append_assoc]
  · rw [hs, List.length_cons, h.sent]
    rfl
  · rw [hs, List.countP_cons, h.failed]
    simp only [Tally.add, decide_eq_true_eq]
    split_ifs <;> simp_all
  · rw [hs, List.map_cons, h.indices, hp]
    rfl
  · have := h.sent_le
    simp only [Tally.add]
    omega
  · intro hstop x hx
    rw [hs] at hx
    cases hrest : r.trace.settlements with
    | nil => simp [hrest] at hx
    | cons y ys =>
      rw [hrest, List.dropLast_cons_cons, List.mem_cons] at hx
      rcases hx with rfl | hx
      · by_contra hcode
        simp [hclean hstop hcode] at hrest
      · exact h.clean hstop x (by rw [hrest]; exact hx)

theorem ledger_of_course {left first : Nat} {s : State σ} {r : Run σ}
    (h : Course d w left first s r) : Ledger d left first r := by
  induction h with
  | limit => exact ledger_nil rfl rfl
  | stop up => exact ledger_nil rfl rfl
  | refused down tries verdict =>
    obtain ⟨p, stream, -, rfl⟩ := attempt_eq_ok_iff.mp tries
    exact ledger_nil (by rw [tried_query_calls, queries_of_verdict verdict])
      (settlements_query d w _ p stream)
  | failed down tries verdict failure stops =>
    obtain ⟨p, stream, hp, rfl⟩ := attempt_eq_ok_iff.mp tries
    exact (ledger_nil rfl rfl).cons (Payment.index_of_choose hp) fun _ _ => rfl
  | sent down tries verdict unstopped rest ih =>
    obtain ⟨p, stream, hp, rfl⟩ := attempt_eq_ok_iff.mp tries
    exact ih.cons (Payment.index_of_choose hp) fun stops failure =>
      absurd ⟨failure, stops⟩ unstopped

lemma transfers_exchanges (xs : List (Payment × Int32)) (ending : Ending) :
    (xs.flatMap d.exchange ++ ending.query).filterMap Event.transfer? =
      xs.map fun x => d.transfer x.1 := by
  induction xs with
  | nil => cases ending <;> rfl
  | cons x xs ih =>
    rw [List.flatMap_cons, List.append_assoc, List.filterMap_append, ih, exchange, queries]
    split_ifs <;> rfl

lemma settlements_closing (d : Drill) (r : Run σ) : (d.closing r).settlements = [] := by
  rw [← Trace.filterMap_settled?_calls, calls_closing]
  rfl

lemma ledger_of_run {limit : Limit} {s : State σ} {r : Run σ} (h : d.run w limit s = .ok r) :
    ∃ left, Grants limit left r.ending ∧ Ledger d left 0 r := by
  obtain ⟨left, c, grants, course, rfl⟩ := run_eq_ok_iff.mp h
  have hl := ledger_of_course course
  have hs : (c.trace ++ d.closing c).settlements = c.trace.settlements := by
    rw [Trace.settlements_append, settlements_closing, List.append_nil]
  have hc : (c.trace ++ d.closing c).calls = c.trace.calls := by simp
  exact ⟨left, grants, by rw [hc, hs]; exact hl.calls, by rw [hs]; exact hl.sent,
    by rw [hs]; exact hl.failed, by rw [hs]; exact hl.indices, hl.sent_le,
    by rw [hs]; exact hl.clean⟩

lemma Ledger.transfers {left first : Nat} {r : Run σ} (h : Ledger d left first r) :
    r.trace.transfers = r.trace.settlements.map fun x => d.transfer x.1 := by
  rw [← Trace.filterMap_transfer?_calls, h.calls, transfers_exchanges]

lemma Ledger.failed_le {left first : Nat} {r : Run σ} (h : Ledger d left first r) :
    r.tally.failed ≤ r.tally.sent := by
  rw [← h.failed, ← h.sent]
  exact List.countP_le_length

/-- A payment that has failed is the last one, where failures stop the drill. -/
lemma Ledger.last {left first : Nat} {r : Run σ} (h : Ledger d left first r)
    (hstop : d.plan.stopOnFailure = true) {k : Nat} {x : Payment × Int32}
    (hk : r.trace.settlements[k]? = some x) (hx : x.2 ≠ 0) : k + 1 = r.tally.sent := by
  obtain ⟨hlt, hget⟩ := List.getElem?_eq_some_iff.mp hk
  rw [← h.sent]
  by_contra hne
  have hlt' : k < r.trace.settlements.dropLast.length := by
    rw [List.length_dropLast]
    omega
  apply hx
  apply h.clean hstop
  rw [← hget, ← List.getElem_dropLast hlt']
  exact List.getElem_mem hlt'

lemma Ledger.failed_le_one {left first : Nat} {r : Run σ} (h : Ledger d left first r)
    (hstop : d.plan.stopOnFailure = true) : r.tally.failed ≤ 1 := by
  rw [← h.failed]
  have hzero : r.trace.settlements.dropLast.countP (·.2 ≠ 0) = 0 := by
    rw [List.countP_eq_zero]
    intro x hx
    simpa using h.clean hstop x hx
  rcases List.eq_nil_or_concat' r.trace.settlements with hnil | ⟨xs, x, hxs⟩
  · simp [hnil]
  · rw [hxs, List.dropLast_concat] at hzero
    rw [hxs, List.countP_append, hzero, Nat.zero_add]
    exact List.countP_le_length

/-- What the tally of a run says about its trace. -/
structure Accounted (d : Drill) (limit : Limit) (r : Run σ) : Prop where
  sent_eq_transfers : r.tally.sent = r.trace.transfers.length
  sent_eq_settlements : r.tally.sent = r.trace.settlements.length
  failed_eq : r.tally.failed = r.trace.settlements.countP (·.2 ≠ 0)
  failed_le : r.tally.failed ≤ r.tally.sent
  sent_le : ∀ n, limit = .count n → r.tally.sent ≤ n
  /-- The counts of a limited drill fit into the word that its limit comes in. -/
  fits : ∀ c, c ≠ 0 → limit = .ofCount c → r.tally.sent < UInt64.size
  indices : r.trace.settlements.map (·.1.index) = List.range r.tally.sent
  /-- Account and confirmations are the plan's, address and amount are those settled. -/
  transfers : r.trace.transfers = r.trace.settlements.map fun x => d.transfer x.1
  /-- A send is settled before the wallet is called again. -/
  calls : r.trace.calls = r.trace.settlements.flatMap d.exchange ++ r.ending.query
  failed_le_one : d.plan.stopOnFailure = true → r.tally.failed ≤ 1
  last : d.plan.stopOnFailure = true → ∀ k x, r.trace.settlements[k]? = some x → x.2 ≠ 0 →
    k + 1 = r.tally.sent

/-- Whatever ends it, a run keeps exact books of what it has done. A drill with a limit
has such books in any case, if only its payments can be chosen: no answer of the wallet
makes them disappear. -/
theorem run_accounted (d : Drill) (w : Wallet σ) (limit : Limit) (s : State σ) :
    (∀ r, d.run w limit s = .ok r → Accounted d limit r) ∧
      ∀ n x, limit = .count n →
        Payment.series d.plan.addresses d.plan.ceiling n 0 s.stream = .ok x →
          ∃ r, d.run w limit s = .ok r ∧ Accounted d limit r := by
  have accounted (r : Run σ) (h : d.run w limit s = .ok r) : Accounted d limit r := by
    obtain ⟨left, grants, hl⟩ := ledger_of_run h
    have sent_le (n : Nat) (hn : limit = .count n) : r.tally.sent ≤ n := by
      subst hn
      exact grants ▸ hl.sent_le
    refine ⟨?_, hl.sent.symm, hl.failed.symm, hl.failed_le, sent_le, ?_, ?_, hl.transfers,
      hl.calls, hl.failed_le_one, fun hstop k x => hl.last hstop⟩
    · rw [hl.transfers, List.length_map, hl.sent]
    · intro c hc hlimit
      rw [Limit.ofCount, if_neg hc] at hlimit
      exact Nat.lt_of_le_of_lt (sent_le _ hlimit) c.toNat_lt
    · rw [hl.indices, List.range_eq_range']
  refine ⟨accounted, ?_⟩
  intro n x hn hx
  subst hn
  obtain ⟨r, hr⟩ := d.run_count_returns w hx
  exact ⟨r, hr, accounted r hr⟩

/-- A run that ends by a query that cannot be started, after a send that could not be. -/
theorem faltering_accounted : ∃ r, pair.run faltering.wallet (.count 5) start = .ok r ∧
    r.tally = ⟨2, 1⟩ ∧ Accounted pair (.count 5) r := by
  obtain ⟨r, hr, ht⟩ := faltering_returns
  exact ⟨r, hr, ht, (run_accounted pair faltering.wallet (.count 5) start).1 r hr⟩

end PaymentDrill.Drill
