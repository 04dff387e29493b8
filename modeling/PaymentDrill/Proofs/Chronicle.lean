import PaymentDrill.Proofs.Parts
import PaymentDrill.Proofs.Replay
import PaymentDrill.Proofs.StopPoint

/-!
# Chronicles of a drill

The trace of a drill told payment by payment. Which payments are sent, and what ends the
drill, takes a loop to find out; what is called, printed and noted on the way does not: it
follows from the payments alone, with the wallet answering each of them in turn. So what a
trace holds can be shown by induction on the payments, with no loop in sight.
-/
namespace PaymentDrill.Drill

variable {σ : Type} {d : Drill} {w : Wallet σ} {s : State σ}

/-- What is left by a payment that is sent. -/
def WalletAndFlag.paid (d : Drill) (w : Wallet σ) (x : WalletAndFlag σ) (p : Payment) :
    WalletAndFlag σ := x.replay w (d.queries ++ [.send (d.transfer p)])

/-- The trace of a payment that is sent. -/
def episode (d : Drill) (w : Wallet σ) (x : WalletAndFlag σ) (p : Payment) : Trace :=
  let r := w.send (d.transfer p) (x.replay w d.queries).wallet
  (if d.plan.checkBalance then .balances :: (w.balances x.wallet).events else []) ++
    .send (d.transfer p) :: (r.events ++ lapse p.index r.result ++ p.report (codeOf r.result))

/-- The traces of payments that are sent one after the other. -/
def chronicle (d : Drill) (w : Wallet σ) (x : WalletAndFlag σ) : List Payment → Trace
  | [] => []
  | p :: ps => d.episode w x p ++ d.chronicle w (x.paid d w p) ps

/-- What is said of an answer that ends a drill. -/
def farewell : Except Failure Balances → Trace
  | .ok _ => [.line noMoney]
  | .error e => [.noted (.balanceCheckFailed e)]

/-- What the trace of a drill ends with, behind its last payment. -/
def epilogue (w : Wallet σ) (x : WalletAndFlag σ) (last : Option (Payment × Int32)) :
    Ending → Trace
  | .limit | .stop => []
  | .failure => last.toList.map fun y => .noted (.stoppedAtFailure y.1.index y.2)
  | .short | .unknown =>
    .balances :: ((w.balances x.wallet).events ++ farewell (w.balances x.wallet).result)

lemma walletAndFlag_settled (d : Drill) (w : Wallet σ) (s : State σ) (p : Payment)
    (stream : Keystream) :
    (d.tried w s p stream).settled.walletAndFlag = s.walletAndFlag.paid d w p := by
  rw [tried_settled_walletAndFlag d w s p stream 0, exchange, WalletAndFlag.paid]
  simp [WalletAndFlag.call]

lemma refusal_eq_farewell {p : Payment} {answer : Except Failure Balances} {ending : Ending}
    (h : d.verdict p answer = some ending) : d.refusal p answer = farewell answer := by
  unfold verdict at h
  unfold refusal farewell
  split at h
  · split_ifs at h ⊢
    rfl
  · rfl

/-- A query that ends a drill is its epilogue. -/
lemma query_eq_epilogue {p : Payment} {stream : Keystream} {ending : Ending}
    (h : (d.tried w s p stream).verdict = some ending) (last : Option (Payment × Int32)) :
    (d.tried w s p stream).query = epilogue w s.walletAndFlag last ending := by
  have hrefusal : ending.isRefusal = true := by
    have hq := queries_of_verdict h
    rw [tried_verdict] at h
    split_ifs at h with checks
    rw [queries, if_pos checks, Ending.query_eq] at hq
    by_contra hr
    simp [hr] at hq
  rw [tried_verdict] at h
  split_ifs at h with checks
  rw [tried_query, if_pos checks]
  dsimp only
  rw [refusal_eq_farewell h]
  cases ending <;> first | rfl | cases hrefusal

lemma trace_eq_episode {p : Payment} {stream : Keystream}
    (h : (d.tried w s p stream).verdict = none) :
    (d.tried w s p stream).trace = d.episode w s.walletAndFlag p := by
  have checked := congrArg WalletAndFlag.wallet (d.tried_checked_walletAndFlag w s p stream)
  have query : (d.tried w s p stream).query =
      if d.plan.checkBalance then .balances :: (w.balances s.wallet).events else [] := by
    rw [tried_verdict] at h
    rw [tried_query]
    split_ifs at h ⊢ with checks
    · dsimp only
      rw [refusal_of_verdict h, List.append_nil]
    · rfl
  have whole : (d.tried w s p stream).trace = (d.tried w s p stream).query ++
      (d.send w p (d.tried w s p stream).checked).2.2 := rfl
  rw [whole, query, send_eq, episode, ← checked]
  rfl

/-- Only a drill that a failure has ended looks back at a payment, its last one. -/
lemma epilogue_cons {x : WalletAndFlag σ} {ending : Ending} {ys : List (Payment × Int32)}
    (h : ending = .failure → ys ≠ []) (y : Payment × Int32) :
    epilogue w x (y :: ys).getLast? ending = epilogue w x ys.getLast? ending := by
  cases ending with
  | failure => rw [List.getLast?_cons_of_ne_nil (h rfl)]
  | _ => rfl

/-- The trace of a course is the chronicle of its payments, with an epilogue. -/
theorem Course.trace_eq {left index : Nat} {r : Run σ} (h : Course d w left index s r) :
    r.trace = d.chronicle w s.walletAndFlag (r.trace.settlements.map (·.1)) ++
      epilogue w ((r.trace.settlements.map (·.1)).foldl (WalletAndFlag.paid d w) s.walletAndFlag)
        r.trace.settlements.getLast? r.ending := by
  induction h with
  | limit => rfl
  | stop up => rfl
  | refused down tries verdict =>
    obtain ⟨p, stream, -, rfl⟩ := attempt_eq_ok_iff.mp tries
    rw [settlements_query]
    exact query_eq_epilogue verdict _
  | failed down tries verdict failure stops =>
    obtain ⟨p, stream, hp, rfl⟩ := attempt_eq_ok_iff.mp tries
    have hnotice (n : Notice) : Trace.settlements [.noted n] = [] := rfl
    rw [Trace.settlements_append, settlements_tried, hnotice, trace_eq_episode verdict,
      ← Payment.index_of_choose hp]
    simp [chronicle, epilogue]
  | @sent left index s a r down tries verdict unstopped rest ih =>
    obtain ⟨p, stream, -, rfl⟩ := attempt_eq_ok_iff.mp tries
    have hsome (hr : r.ending = .failure) : r.trace.settlements ≠ [] := by
      obtain ⟨-, x, hx, -⟩ := rest.failure_iff.mp hr
      exact List.ne_nil_of_mem hx
    rw [walletAndFlag_settled] at ih
    rw [Trace.settlements_append, settlements_tried, List.singleton_append, List.map_cons,
      List.foldl_cons, epilogue_cons hsome, chronicle, List.append_assoc, ← ih,
      trace_eq_episode verdict]

/-- The trace of a run has the closing notice behind the epilogue. -/
theorem run_trace_eq {limit : Limit} {r : Run σ} (h : d.run w limit s = .ok r) :
    r.trace = d.chronicle w s.walletAndFlag (r.trace.settlements.map (·.1)) ++
      epilogue w ((r.trace.settlements.map (·.1)).foldl (WalletAndFlag.paid d w) s.walletAndFlag)
        r.trace.settlements.getLast? r.ending ++ d.closing r := by
  obtain ⟨left, c, -, course, rfl⟩ := run_eq_ok_iff.mp h
  have hs : (c.trace ++ d.closing c).settlements = c.trace.settlements := by
    rw [Trace.settlements_append, settlements_closing, List.append_nil]
  dsimp only
  rw [hs, ← course.trace_eq]
  rfl

end PaymentDrill.Drill
