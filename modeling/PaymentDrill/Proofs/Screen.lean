import PaymentDrill.Proofs.Accounting

/-!
# What stands on the screen

The standard output of a drill. Two parties write to it: the wallet what it passes on itself,
and the drill a line for each payment and one when the money has run out. What the wallet
passes on with a send stands right in front of the line of the payment. There is no other line
about the money, and it is never the drill itself that tells of a second interrupt.
-/
namespace PaymentDrill

lemma Reply.output_events {σ α : Type} (r : Reply σ α) : Trace.output r.events = r.passed := by
  have notices : Trace.output (r.notices.map .noted) = [] := by
    simp [Trace.output, Event.output]
  unfold events
  rw [Trace.output_append, notices, List.append_nil]
  split_ifs with h
  · exact h.symm
  · exact List.append_nil _

@[simp] lemma Trace.settlements_noted (n : Notice) : settlements [.noted n] = [] := rfl

@[simp] lemma Reply.line_not_mem_events {σ α : Type} (r : Reply σ α) (text : List Char) :
    .line text ∉ r.events := by
  unfold events
  split_ifs <;> simp

lemma Reply.noted_mem_events {σ α : Type} (r : Reply σ α) (n : Notice) :
    .noted n ∈ r.events ↔ n ∈ r.notices := by
  unfold events
  split_ifs <;> simp

namespace Drill

variable {σ : Type} {d : Drill} {w : Wallet σ} {s : State σ}

/-- The line about the money, where that ends a drill. -/
def moneyLine (ending : Option Ending) : List UInt8 :=
  if ending = some .short then (Event.line noMoney).output else []

lemma noMoney_mem_refusal (d : Drill) (p : Payment) (answer : Except Failure Balances) :
    .line noMoney ∈ d.refusal p answer ↔ d.verdict p answer = some .short := by
  unfold refusal verdict
  split
  · split_ifs <;> simp
  · simp

lemma output_refusal (d : Drill) (p : Payment) (answer : Except Failure Balances) :
    Trace.output (d.refusal p answer) = moneyLine (d.verdict p answer) := by
  unfold refusal verdict moneyLine
  split
  · split_ifs <;> simp_all [Trace.output]
  · rfl

section Attempts

variable (d w s) (p : Payment) (stream : Keystream)

lemma tried_code_eq : (d.tried w s p stream).code =
    codeOf (w.send (d.transfer p) (d.tried w s p stream).checked.wallet).result := by
  simp only [tried, send_eq]

/-- The trace of a payment, its query in front of its send. -/
lemma tried_trace_eq : (d.tried w s p stream).trace = (d.tried w s p stream).query ++
    .send (d.transfer p) ::
      ((w.send (d.transfer p) (d.tried w s p stream).checked.wallet).events ++
        lapse p.index (w.send (d.transfer p) (d.tried w s p stream).checked.wallet).result ++
          p.report (d.tried w s p stream).code) := by
  have whole : (d.tried w s p stream).trace = (d.tried w s p stream).query ++
      (d.send w p (d.tried w s p stream).checked).2.2 := rfl
  rw [whole, send_eq, tried_code_eq]

lemma noMoney_mem_query : .line noMoney ∈ (d.tried w s p stream).query ↔
    (d.tried w s p stream).verdict = some .short := by
  rw [tried_query, tried_verdict]
  split_ifs
  · simp [noMoney_mem_refusal]
  · simp

lemma noMoney_mem_trace : .line noMoney ∈ (d.tried w s p stream).trace ↔
    (d.tried w s p stream).verdict = some .short := by
  have lapsed (x : Except Failure Int32) : .line noMoney ∉ lapse p.index x := by
    cases x <;> simp [lapse]
  have reported (code : Int32) : .line noMoney ∉ p.report code := by
    have hline := (line_ne_noMoney p).symm
    unfold Payment.report
    split_ifs <;> simp [hline]
  rw [tried_trace_eq, List.mem_append, noMoney_mem_query]
  simp [lapsed, reported]

lemma output_query (silent : (w.balances s.wallet).passed = []) :
    (d.tried w s p stream).query.output = moneyLine (d.tried w s p stream).verdict := by
  rw [tried_query, tried_verdict]
  split_ifs with checks
  · dsimp only
    rw [← output_refusal, ← List.singleton_append, Trace.output_append, Trace.output_append,
      Reply.output_events, silent]
    rfl
  · rfl

lemma output_report (code : Int32) : Trace.output (p.report code) = (Event.line p.line).output := by
  unfold Payment.report
  split_ifs <;> simp [Trace.output, Event.output]

/-- What the wallet passes on stands in front of the line of the payment. -/
lemma output_trace : (d.tried w s p stream).trace.output = (d.tried w s p stream).query.output ++
    ((w.send (d.transfer p) (d.tried w s p stream).checked.wallet).passed ++
      (Event.line p.line).output) := by
  have lapsed (x : Except Failure Int32) : Trace.output (lapse p.index x) = [] := by
    cases x <;> rfl
  rw [tried_trace_eq, Trace.output_append, ← List.singleton_append, Trace.output_append,
    Trace.output_append, Trace.output_append, Reply.output_events, output_report, lapsed,
    List.append_nil]
  rfl

end Attempts

/-- There is a line about the money exactly if a balance has not covered a payment. -/
theorem Course.noMoney_mem_iff {left index : Nat} {r : Run σ} (h : Course d w left index s r) :
    .line noMoney ∈ r.trace ↔ r.ending = .short := by
  induction h with
  | limit => simp
  | stop up => simp
  | refused down tries verdict =>
    obtain ⟨p, stream, -, rfl⟩ := attempt_eq_ok_iff.mp tries
    rw [noMoney_mem_query, verdict, Option.some.injEq]
  | failed down tries verdict failure stops =>
    obtain ⟨p, stream, -, rfl⟩ := attempt_eq_ok_iff.mp tries
    rw [List.mem_append, noMoney_mem_trace, verdict]
    simp
  | sent down tries verdict unstopped rest ih =>
    obtain ⟨p, stream, -, rfl⟩ := attempt_eq_ok_iff.mp tries
    rw [List.mem_append, noMoney_mem_trace, verdict, ih]
    simp

theorem noMoney_mem_iff {limit : Limit} {r : Run σ} (h : d.run w limit s = .ok r) :
    .line noMoney ∈ r.trace ↔ r.ending = .short := by
  obtain ⟨left, c, -, course, rfl⟩ := run_eq_ok_iff.mp h
  rw [List.mem_append, course.noMoney_mem_iff]
  unfold closing
  split_ifs <;> simp

/-- A wallet that never tells of a second interrupt, as long as the drill pays to its addresses. -/
structure Unaborted (d : Drill) (w : Wallet σ) : Prop where
  balances : ∀ x, .interruptedAgain ∉ (w.balances x).notices
  send : ∀ p x, p.address ∈ d.plan.addresses →
    .interruptedAgain ∉ (w.send (d.transfer p) x).notices

lemma Unaborted.query (h : d.Unaborted w) (s : State σ) (p : Payment) (stream : Keystream) :
    .noted .interruptedAgain ∉ (d.tried w s p stream).query := by
  have refused (x : Except Failure Balances) : .noted .interruptedAgain ∉ d.refusal p x := by
    unfold refusal
    split
    · split_ifs <;> simp
    · simp
  rw [tried_query]
  split_ifs
  · simp [Reply.noted_mem_events, h.balances, refused]
  · simp

lemma Unaborted.trace (h : d.Unaborted w) (s : State σ) {p : Payment}
    (hp : p.address ∈ d.plan.addresses) (stream : Keystream) :
    .noted .interruptedAgain ∉ (d.tried w s p stream).trace := by
  have lapsed (x : Except Failure Int32) : .noted .interruptedAgain ∉ lapse p.index x := by
    cases x <;> simp [lapse]
  have reported (code : Int32) : .noted .interruptedAgain ∉ p.report code := by
    unfold Payment.report
    split_ifs <;> simp
  rw [tried_trace_eq, List.mem_append, not_or]
  exact ⟨h.query s p stream, by simp [Reply.noted_mem_events, h.send _ _ hp, lapsed, reported]⟩

/-- A drill itself never tells of a second interrupt. -/
theorem Course.unaborted {left index : Nat} {r : Run σ} (h : Course d w left index s r)
    (hw : d.Unaborted w) : .noted .interruptedAgain ∉ r.trace := by
  induction h with
  | limit => simp
  | stop up => simp
  | refused down tries verdict =>
    obtain ⟨p, stream, -, rfl⟩ := attempt_eq_ok_iff.mp tries
    exact hw.query _ p stream
  | failed down tries verdict failure stops =>
    obtain ⟨p, stream, hp, rfl⟩ := attempt_eq_ok_iff.mp tries
    rw [List.mem_append, not_or]
    exact ⟨hw.trace _ (Payment.mem_of_choose hp) stream, by simp⟩
  | sent down tries verdict unstopped rest ih =>
    obtain ⟨p, stream, hp, rfl⟩ := attempt_eq_ok_iff.mp tries
    rw [List.mem_append, not_or]
    exact ⟨hw.trace _ (Payment.mem_of_choose hp) stream, ih⟩

/-- The payments that a course settles go to addresses of the plan. -/
lemma Course.mem_addresses {left index : Nat} {r : Run σ} (h : Course d w left index s r) :
    ∀ x ∈ r.trace.settlements, x.1.address ∈ d.plan.addresses := by
  induction h with
  | limit => simp [Trace.settlements]
  | stop up => simp [Trace.settlements]
  | refused down tries verdict =>
    obtain ⟨p, stream, -, rfl⟩ := attempt_eq_ok_iff.mp tries
    simp [settlements_query]
  | failed down tries verdict failure stops =>
    obtain ⟨p, stream, hp, rfl⟩ := attempt_eq_ok_iff.mp tries
    rw [Trace.settlements_append, settlements_tried]
    simpa using Payment.mem_of_choose hp
  | sent down tries verdict unstopped rest ih =>
    obtain ⟨p, stream, hp, rfl⟩ := attempt_eq_ok_iff.mp tries
    rw [Trace.settlements_append, settlements_tried, List.singleton_append, List.forall_mem_cons]
    exact ⟨Payment.mem_of_choose hp, ih⟩

end Drill

end PaymentDrill
