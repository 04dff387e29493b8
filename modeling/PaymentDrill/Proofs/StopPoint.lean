import Mathlib.Order.Bounds.Defs
import PaymentDrill.Proofs.Accounting

/-!
# Stop points of a drill

Where a drill ends and what it says about it. The conditions that can end a drill are
stated of a number of payments alone: how things would stand if that many had been sent,
with nothing to keep the drill from it. A run ends at the least number at which one of
them holds, by the one that takes precedence there, and leaves the words for it, and no
others, in the trace.
-/
namespace PaymentDrill

namespace Drill

variable {σ : Type} {d : Drill} {w : Wallet σ} {limit : Limit} {s : State σ}

/-- Where a drill stands with a number of payments sent. -/
structure Standing (σ : Type) where
  state : State σ
  /-- The code of the last payment, if there is one. -/
  last : Option Int32

/-- Where a drill stands that nothing has kept from sending a number of payments. -/
def standing (d : Drill) (w : Wallet σ) (s : State σ) : Nat → Except Stuck (Standing σ)
  | 0 => .ok ⟨s, none⟩
  | i + 1 =>
    match d.standing w s i with
    | .error e => .error e
    | .ok x =>
      match d.attempt w i x.state with
      | .error e => .error e
      | .ok a => .ok ⟨a.settled, some a.code⟩

/-- The conditions that end a drill at a number of payments, and the words for them. -/
inductive Ends (d : Drill) (w : Wallet σ) (limit : Limit) (s : State σ) :
    Nat → Ending → Trace → Prop
  | failure {i : Nat} {x : Standing σ} {code : Int32} (stops : d.plan.stopOnFailure = true)
      (stands : d.standing w s (i + 1) = .ok x) (last : x.last = some code)
      (failed : code ≠ 0) :
      Ends d w limit s (i + 1) .failure [.noted (.stoppedAtFailure i code)]
  | limit {i : Nat} (reached : limit = .count i) : Ends d w limit s i .limit []
  | stop {i : Nat} {x : Standing σ} (stands : d.standing w s i = .ok x)
      (up : (d.heedsStop && x.state.stop) = true) : Ends d w limit s i .stop []
  | short {i : Nat} {x : Standing σ} {p : Payment} {stream : Keystream} {b : Balances}
      (checks : d.plan.checkBalance = true) (stands : d.standing w s i = .ok x)
      (chosen : Payment.choose d.plan.addresses d.plan.ceiling i x.state.stream = .ok (p, stream))
      (answered : (w.balances x.state.wallet).result = .ok b)
      (uncovered : ∀ spendable, b.spendable? d.plan.account = some spendable →
        p.amount.le spendable = false) :
      Ends d w limit s i .short [.line noMoney]
  | unknown {i : Nat} {x : Standing σ} {f : Failure} (checks : d.plan.checkBalance = true)
      (stands : d.standing w s i = .ok x)
      (refused : (w.balances x.state.wallet).result = .error f) :
      Ends d w limit s i .unknown [.noted (.balanceCheckFailed f)]

/-- Which condition takes precedence over which. -/
def Ending.rank : Ending → Nat
  | .failure => 0
  | .limit => 1
  | .stop => 2
  | .short | .unknown => 3

lemma not_covers_iff (b : Balances) (account : String) (amount : Binary64) :
    b.covers account amount = false ↔
      ∀ spendable, b.spendable? account = some spendable → amount.le spendable = false := by
  unfold Balances.covers
  cases b.spendable? account <;> simp

/-- What is due at a place where the drill stands with one of its conditions. -/
lemma Ends.due {i : Nat} {x : Standing σ} {ending : Ending} {t : Trace}
    (h : Ends d w limit s i ending t) (stands : d.standing w s i = .ok x) :
    (ending = .failure ∧ d.plan.stopOnFailure = true ∧ ∃ code, x.last = some code ∧ code ≠ 0) ∨
      (ending = .limit ∧ limit = .count i) ∨
      (ending = .stop ∧ (d.heedsStop && x.state.stop) = true) ∨
      (ending.rank = 3 ∧ ∀ a, d.attempt w i x.state = .ok a → a.verdict = some ending) := by
  cases h with
  | failure stops stands' last failed =>
    cases Except.ok.inj (stands.symm.trans stands')
    exact .inl ⟨rfl, stops, _, last, failed⟩
  | limit reached => exact .inr (.inl ⟨rfl, reached⟩)
  | stop stands' up =>
    cases Except.ok.inj (stands.symm.trans stands')
    exact .inr (.inr (.inl ⟨rfl, up⟩))
  | short checks stands' chosen answered uncovered =>
    cases Except.ok.inj (stands.symm.trans stands')
    refine .inr (.inr (.inr ⟨rfl, ?_⟩))
    intro a tries
    obtain ⟨p, stream, hp, rfl⟩ := attempt_eq_ok_iff.mp tries
    obtain ⟨rfl, rfl⟩ := Prod.mk.inj (Except.ok.inj (chosen.symm.trans hp))
    rw [tried_verdict, if_pos checks, answered, verdict,
      (not_covers_iff _ _ _).mpr uncovered]
    rfl
  | unknown checks stands' refused =>
    cases Except.ok.inj (stands.symm.trans stands')
    refine .inr (.inr (.inr ⟨rfl, ?_⟩))
    intro a tries
    obtain ⟨p, stream, hp, rfl⟩ := attempt_eq_ok_iff.mp tries
    rw [tried_verdict, if_pos checks, refused]
    rfl

lemma refusal_of_verdict {p : Payment} {answer : Except Failure Balances}
    (h : d.verdict p answer = none) : d.refusal p answer = [] := by
  unfold verdict at h
  split at h
  · split_ifs at h with hc
    exact if_pos hc
  · cases h

/-- The last payment does not end the drill. -/
def Standing.Clean (d : Drill) (x : Standing σ) : Prop :=
  d.plan.stopOnFailure = true → ∀ code, x.last = some code → code = 0

section Precedence

variable {i : Nat} {x : Standing σ} {e : Ending} {t : Trace}

lemma Ends.one_le_rank (h : Ends d w limit s i e t) (stands : d.standing w s i = .ok x)
    (clean : x.Clean d) : 1 ≤ e.rank := by
  rcases h.due stands with ⟨-, stops, code, last, failed⟩ | ⟨rfl, -⟩ | ⟨rfl, -⟩ | ⟨hrank, -⟩
  · exact absurd (clean stops code last) failed
  · exact Nat.le_refl 1
  · show 1 ≤ 2
    omega
  · omega

lemma Ends.two_le_rank (h : Ends d w limit s i e t) (stands : d.standing w s i = .ok x)
    (clean : x.Clean d) (unlimited : limit ≠ .count i) : 2 ≤ e.rank := by
  have hone := h.one_le_rank stands clean
  rcases h.due stands with ⟨rfl, -⟩ | ⟨-, reached⟩ | ⟨rfl, -⟩ | ⟨hrank, -⟩
  · exact absurd hone (by decide)
  · exact absurd reached unlimited
  · exact Nat.le_refl 2
  · omega

/-- Only the query is left to end a drill whose other conditions do not hold. -/
lemma Ends.refused (h : Ends d w limit s i e t) (stands : d.standing w s i = .ok x)
    (clean : x.Clean d) (unlimited : limit ≠ .count i)
    (down : (d.heedsStop && x.state.stop) = false) {a : Attempt σ}
    (tries : d.attempt w i x.state = .ok a) : a.verdict = some e := by
  have htwo := h.two_le_rank stands clean unlimited
  rcases h.due stands with ⟨rfl, -⟩ | ⟨rfl, -⟩ | ⟨-, up⟩ | ⟨-, refused⟩
  · exact absurd htwo (by decide)
  · exact absurd htwo (by decide)
  · rw [down] at up
    cases up
  · exact refused a tries

end Precedence

/-- What is left of a limit at an index; a drill without limit ends otherwise. -/
def Within (limit : Limit) (index left : Nat) (ending : Ending) : Prop :=
  limit = .count (index + left) ∨ limit = .unbounded ∧ ending ≠ .limit

lemma Within.step {index left : Nat} {ending : Ending}
    (h : Within limit index (left + 1) ending) : Within limit (index + 1) left ending := by
  unfold Within at h ⊢
  rwa [Nat.add_right_comm, Nat.add_assoc]

end Drill

end PaymentDrill
