import PaymentDrill.Proofs.Amounts
import PaymentDrill.Proofs.Arguments
import PaymentDrill.Proofs.Funding
import PaymentDrill.Proofs.Rereading

/-!
# What the wallet is told

A payment is handed to a wallet program as a list of arguments. Texts are passed on as they
are, each as one argument, and numbers are written so that they read back. So different
payments are different lists, and the amount that the wallet reads is the one that the balance
was checked for and that is reported in the end.
-/
namespace PaymentDrill

namespace Payment

variable {addresses : List String} {ceiling : Binary64} {index : ℕ} {s t : Keystream} {p : Payment}

lemma least_of_choose (hceiling : ceiling.Negligible)
    (h : choose addresses ceiling index s = .ok (p, t)) : p.amount = leastAmount := by
  rw [choose_of_negligible hceiling] at h
  cases hd : drawAddress addresses s with
  | error e =>
    rw [hd] at h
    cases h
  | ok r =>
    rw [hd] at h
    obtain ⟨rfl, -⟩ := Prod.mk.inj (Except.ok.inj h)
    rfl

/-- Whatever the ceiling is, an amount that is chosen is finite. -/
lemma isFinite_of_choose (h : choose addresses ceiling index s = .ok (p, t)) :
    p.amount.isFinite = true := by
  by_cases hceiling : ceiling.Negligible
  · rw [least_of_choose hceiling h]
    exact isFinite_leastAmount
  · cases ceiling with
    | nan => exact absurd (.inl rfl) hceiling
    | finite => exact (ranged_of_choose rfl h).finite
    | infinite negative =>
      cases negative with
      | true => exact absurd (.inr (.inl rfl)) hceiling
      | false =>
        cases hd : drawAddress addresses s with
        | error e => simp [choose, hd] at h
        | ok r =>
          rw [choose_eq_error_iff.mpr ⟨rfl, r, hd⟩] at h
          cases h

lemma isFinite_of_series {n : ℕ} {ps : List Payment}
    (h : series addresses ceiling n index s = .ok (ps, t)) :
    ∀ p ∈ ps, p.amount.isFinite = true := by
  induction n generalizing index s ps with
  | zero =>
    obtain ⟨rfl, -⟩ := Prod.mk.inj (Except.ok.inj h)
    exact fun p hp => nomatch hp
  | succ n ih =>
    obtain ⟨q, u, qs, hq, hqs, rfl⟩ := series_succ_eq_ok_iff.mp h
    rw [List.forall_mem_cons]
    exact ⟨isFinite_of_choose hq, ih hqs⟩

lemma IsNext.isFinite {n : ℕ} (h : IsNext addresses ceiling index s n p) :
    p.amount.isFinite = true := by
  obtain ⟨ps, u, hps⟩ := h
  exact isFinite_of_series hps p (by simp)

end Payment

lemma natText_injective : Function.Injective natText := fun m n h => by
  have hread := congrArg (fun cs => Nat.ofDigitChars 10 cs 0) h
  simpa only [natText, Nat.ofDigitChars_ten_toDigits] using hread

lemma Binary64.eq_of_toText_eq {x y : Binary64} (hx : x.isFinite = true) (hy : y.isFinite = true)
    (h : x.toText = y.toText) : x = y := by
  have hread := (written_toText hx).reads
  rw [h, (written_toText hy).reads] at hread
  exact (Option.some.inj hread).symm

namespace WalletProgram

variable {σ : Type} {p : WalletProgram} {t t' : Transfer}

/-- Nothing that a send is started with has a NUL. -/
structure Plain (p : WalletProgram) (t : Transfer) : Prop where
  program : hasNul p.program = false
  leading : ∀ word ∈ p.leading, hasNul word = false
  account : hasNul t.account = false
  address : hasNul t.address = false

/-- The answer to a send, from what the start of the program comes to. -/
def answer (p : WalletProgram) : Except SystemFault Completion × σ → Reply σ Int32
  | (.error f, s) => refused (.notStarted p.program .send f) s
  | (.ok c, s) =>
    { result := .ok c.exit.code
      state := s
      notices := c.notices
      passed := c.output
      interrupt := c.interrupt }

/-- A send is one start of the program, with every text as an argument of its own. -/
theorem send_eq (h : p.Plain t) (host : Host σ) (s : σ) : p.send host t s =
    p.answer (host p.program (p.leading ++ ["sendfrom", t.account, t.address,
      String.ofList t.amount.toText, "0",
      String.ofList (natText t.minConfirmations.toNat)]) s) := by
  have hplain : (p.program :: p.arguments .send (sendOperands t)).any hasNul = false := by
    rw [List.any_eq_false]
    intro word hword
    rw [Bool.not_eq_true]
    rcases List.mem_cons.mp hword with rfl | hargument
    · exact h.program
    rcases List.mem_append.mp hargument with hleading | hbehind
    · exact h.leading word hleading
    · exact plain_send h.account h.address _ rfl word (List.mem_cons_of_mem _ hbehind)
  have hwords : p.arguments .send (sendOperands t) = p.leading ++ ["sendfrom", t.account, t.address,
      String.ofList t.amount.toText, "0", String.ofList (natText t.minConfirmations.toNat)] := rfl
  unfold send start
  dsimp only
  rw [hplain, ← hwords]
  rcases host p.program (p.arguments .send (sendOperands t)) s with ⟨_ | c, u⟩ <;> rfl

/-- Two sends that are started with the same arguments are the same. -/
theorem eq_of_arguments_eq (hfin : t.amount.isFinite = true) (hfin' : t'.amount.isFinite = true)
    (h : p.arguments .send (sendOperands t) = p.arguments .send (sendOperands t')) : t = t' := by
  have hoperands := List.append_cancel_left h
  simp only [sendOperands, List.cons.injEq, true_and, and_true, String.ofList_inj] at hoperands
  obtain ⟨haccount, haddress, hamount, hminimum⟩ := hoperands
  have hminimum' : t.minConfirmations = t'.minConfirmations :=
    UInt32.toNat_inj.mp (natText_injective hminimum)
  have hamount' := Binary64.eq_of_toText_eq hfin hfin' hamount
  cases t
  cases t'
  simp_all

end WalletProgram

namespace Drill

variable {σ : Type}

/-- A send of a drill, with what was called before it and after it. -/
structure Handed (d : Drill) (w : Wallet σ) (s : State σ) (before : List Event) (t : Transfer)
    (after : List Event) (q : Payment) : Prop where
  transfer : t = d.transfer q
  finite : q.amount.isFinite = true
  /-- What the wallet reads is the amount of the payment, bit for bit. -/
  reads : Binary64.ofText? t.amount.toText = some q.amount
  /-- What was checked is the amount of the payment. -/
  checked : d.plan.checkBalance = true → ∃ front b, before = front ++ [.balances] ∧
    (w.balances (s.walletAndFlag.replay w front).wallet).result = .ok b ∧
      b.covers d.plan.account q.amount = true
  /-- What is reported is the payment, with the code that the send came back with. -/
  settled : ∃ rest, after =
    .settled q (codeOf (w.send t (s.walletAndFlag.replay w before).wallet).result) :: rest

theorem handed_of_run {d : Drill} {w : Wallet σ} {limit : Limit} {s : State σ} {r : Run σ}
    (h : d.run w limit s = .ok r) {before after : List Event} {t : Transfer}
    (hcalls : r.trace.calls = before ++ .send t :: after) : ∃ q, d.Handed w s before t after q := by
  obtain ⟨past, front, back, rest, q, rfl, rfl, place⟩ := place_of_run h hcalls
  obtain ⟨rfl, rfl, rfl, verdict⟩ := place.turn.send
  have hfin := place.next.isFinite
  refine ⟨q, rfl, hfin, (Binary64.written_toText hfin).reads, fun checks => ?_, rest, ?_⟩
  · obtain ⟨b, answered, covers⟩ := covers_of_verdict (verdict checks)
    exact ⟨past, b, by rw [queries, if_pos checks], answered, covers⟩
  · rw [WalletAndFlag.replay_append]
    rfl

end Drill

/-- A wallet program is told what was chosen. -/
structure ToldAsChosen : Prop where
  /-- The arguments of a send. -/
  arguments : ∀ (σ : Type) (p : WalletProgram) (host : Host σ) (t : Transfer) s, p.Plain t →
    p.send host t s = p.answer (host p.program (p.leading ++ ["sendfrom", t.account, t.address,
      String.ofList t.amount.toText, "0", String.ofList (natText t.minConfirmations.toNat)]) s)
  /-- The text of an amount is digits, perhaps with a point or with a minus, and reads back. -/
  amount : ∀ x : Binary64, x.isFinite = true → x.Written x.toText
  /-- No decimal that reads back has fewer digits. -/
  fewest : ∀ (x : Binary64) (d : Decimal), x.isFinite = true → 0 < x.modulus →
    d.toBinary64 x.isNegative = x →
      (natText (Decimal.shortest .larger x).digits).length ≤ (natText d.digits).length
  /-- No two sends have the same arguments. -/
  injective : ∀ (p : WalletProgram) (t t' : Transfer), t.amount.isFinite = true →
    t'.amount.isFinite = true → p.arguments .send (WalletProgram.sendOperands t) =
      p.arguments .send (WalletProgram.sendOperands t') → t = t'
  /-- Every send of every drill is of one and the same amount, when it is checked, when it is read
  and when it is reported. -/
  drill : ∀ (σ : Type) (d : Drill) (w : Wallet σ) limit s r, d.run w limit s = .ok r →
    ∀ before t after, r.trace.calls = before ++ .send t :: after →
      ∃ q, d.Handed w s before t after q

theorem told_as_chosen : ToldAsChosen where
  arguments _ _ host _ s h := WalletProgram.send_eq h host s
  amount _ := Binary64.written_toText
  fewest _ _ := Decimal.length_shortest_le .larger
  injective _ _ _ := WalletProgram.eq_of_arguments_eq
  drill _ _ _ _ _ _ h _ _ _ := Drill.handed_of_run h

/-- A host that keeps the arguments of every start. -/
def keeping : Host (List (List String)) := fun _ words s =>
  (.ok { output := [], exit := .status 0 }, s ++ [words])

/-- An account that looks like an option, an address with a line of its own, the least amount that
there is, and the first payment of a drill. -/
theorem oddments_told :
    ((⟨"till", []⟩ : WalletProgram).send keeping
        ⟨"-x y", "a\"\n1", Binary64.ofDecimal false 11 (-1), 3⟩ []).state =
      [["sendfrom", "-x y", "a\"\n1", "1.1", "0", "3"]] ∧
    Binary64.Written (.finite true 1 (-1074) (by decide))
      (Binary64.toText (.finite true 1 (-1074) (by decide))) ∧
    ∃ r before t after q, Drill.pair.run Drill.faltering.wallet (.count 5) Drill.start = .ok r ∧
      r.trace.calls = before ++ .send t :: after ∧ t.address = "a2" ∧
        Drill.pair.Handed Drill.faltering.wallet Drill.start before t after q := by
  refine ⟨?_, told_as_chosen.amount _ rfl, ?_⟩
  · have hplain : (⟨"till", []⟩ : WalletProgram).Plain
        ⟨"-x y", "a\"\n1", Binary64.ofDecimal false 11 (-1), 3⟩ :=
      ⟨by decide, by decide, by decide, by decide⟩
    rw [told_as_chosen.arguments _ _ keeping _ [] hplain]
    decide +kernel
  · obtain ⟨r, hr, haddress⟩ : ∃ r, Drill.pair.run Drill.faltering.wallet (.count 5) Drill.start =
        .ok r ∧ r.trace.transfers.head?.map Transfer.address = some "a2" :=
      Drill.exists_ok_of_toOption (f := fun r : Drill.Run _ =>
        r.trace.transfers.head?.map Transfer.address) (by decide +kernel)
    obtain ⟨t, ht, haddress⟩ := Option.map_eq_some_iff.mp haddress
    have hmem := List.mem_of_head? ht
    rw [← Trace.filterMap_transfer?_calls, List.mem_filterMap] at hmem
    obtain ⟨e, he, htransfer⟩ := hmem
    cases e <;> cases htransfer
    obtain ⟨before, after, hcalls⟩ := List.append_of_mem he
    obtain ⟨q, hq⟩ := told_as_chosen.drill _ _ _ _ _ _ hr _ _ _ hcalls
    exact ⟨r, before, t, after, q, hr, hcalls, haddress, hq⟩

end PaymentDrill
