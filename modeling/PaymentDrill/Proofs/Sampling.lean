import PaymentDrill.Program
import PaymentDrill.Proofs.Finiteness
import PaymentDrill.Proofs.Opening

/-!
# Random choices without a dead end

There is no random share of an infinite ceiling, and none of a ceiling that is not
positive. The first case stops everything; the second one takes the least amount and
leaves the stream alone. A ceiling that comes from text is finite, whether it is the
configured amount or a thousandth of a balance, so the first case needs an amount that
no text can give.
-/
namespace PaymentDrill

namespace Binary64

lemma inUnits_eq_zero_iff {s : Bool} {m : ℕ} {e unit : ℤ} : inUnits s m e unit = 0 ↔ m = 0 := by
  cases s <;> simp [inUnits]

lemma inUnits_pos_iff {s : Bool} {m : ℕ} {e unit : ℤ} :
    0 < inUnits s m e unit ↔ s = false ∧ 0 < m := by
  have hpos : (0 : ℤ) < 2 ^ (e - unit).toNat := by positivity
  cases s
  · simp [inUnits, hpos]
  · have hle : 0 ≤ (m : ℤ) * 2 ^ (e - unit).toNat := by positivity
    simp [inUnits, hle]

/-- Neither positive nor infinite above: no random share is drawn of such a ceiling. -/
def Negligible (x : Binary64) : Prop :=
  x = .nan ∨ x = .infinite true ∨ ∃ s m e h, x = .finite s m e h ∧ (s = true ∨ m = 0)

lemma zero_lt_eq_false_iff {x : Binary64} : zero.lt x = false ↔ x.Negligible := by
  cases x with
  | nan => simp [Negligible]
  | infinite s => cases s <;> simp [Negligible, zero, lt]
  | finite s m e h =>
    have hlt : zero.lt (finite s m e h) = decide (0 < inUnits s m e (min (-1074) e)) := by
      have hzero : inUnits false 0 (-1074) (min (-1074) e) = 0 := inUnits_eq_zero_iff.mpr rfl
      rw [zero, lt, hzero]
    rw [hlt, decide_eq_false_iff_not, inUnits_pos_iff]
    cases s <;> simp [Negligible, h]

end Binary64

namespace Plan

variable {config : Config} {balance : Option Binary64}

lemma isFinite_thousandth {b : Binary64} (hb : b.isFinite = true) :
    (b.div (Binary64.ofNat 1000)).isFinite = true :=
  Binary64.isFinite_div hb (Binary64.atLeastOne_ofNat (by decide))

/-- A finite amount and a finite balance make a finite ceiling. -/
lemma isFinite_of_ceilingOf {c : Binary64} (hm : config.Bounded)
    (hb : ∀ b, balance = some b → b.isFinite = true) (h : ceilingOf config balance = .ok c) :
    c.isFinite = true := by
  unfold ceilingOf at h
  split_ifs at h
  · exact Except.ok.inj h ▸ hm
  · cases balance with
    | none => cases h
    | some b =>
      have hshare := isFinite_thousandth (hb b rfl)
      exact Except.ok.inj h ▸ hshare

/-- A ceiling is infinite only if the amount or the balance that it is made of is. -/
lemma ceilingOf_eq_infinite_iff : ceilingOf config balance = .ok (.infinite false) ↔
    config.maxAmount = .infinite false ∨
      config.maxAmount.Negligible ∧ balance = some (.infinite false) := by
  have hthousand : Binary64.ofNat 1000 = .finite false (1000 * 2 ^ 43) (-43) (by decide) := by
    decide +kernel
  have hinf : Binary64.zero.lt (.infinite false) = true := rfl
  rw [← Binary64.zero_lt_eq_false_iff]
  unfold ceilingOf
  split_ifs with hm
  · simp [hm]
  · have hne : config.maxAmount ≠ .infinite false := fun heq => hm (heq ▸ hinf)
    cases balance with
    | none => simp [hne]
    | some b =>
      have hquot : b.div (Binary64.ofNat 1000) = .infinite false ↔ b = .infinite false := by
        constructor
        · intro hdiv
          cases b with
          | nan => cases hdiv
          | infinite s => simpa [hthousand, Binary64.div] using hdiv
          | finite s m e h =>
            have hfin := isFinite_thousandth (b := .finite s m e h) rfl
            rw [hdiv] at hfin
            cases hfin
        · rintro rfl
          rw [hthousand]
          rfl
      simp [hne, hm, hquot]

end Plan

namespace Payment

variable {addresses : List String} {ceiling : Binary64}

/-- The position that a word stands for is one of the list. -/
lemma position_of_drawAddress {s t : Keystream} {address : String}
    (h : drawAddress addresses s = .ok (address, t)) :
    ∃ w : UInt64, addresses[w.toNat * addresses.length / 2 ^ 64]? = some address := by
  unfold drawAddress at h
  split at h
  · rename_i i u hi
    obtain ⟨rfl, -⟩ := Prod.mk.inj (Except.ok.inj h)
    obtain ⟨-, w, -, hw, -⟩ := words_of_draw hi
    have hval : i.val = w.toNat * addresses.length / 2 ^ 64 := by
      unfold index? at hw
      split_ifs at hw
      exact congrArg Fin.val (Option.some.inj hw).symm
    refine ⟨w, ?_⟩
    rw [← hval]
    exact List.getElem?_eq_getElem i.isLt
  · cases h

lemma drawAddress_ne (addresses : List String) (s : Keystream) :
    drawAddress addresses s ≠ .error .infiniteCeiling := by
  unfold drawAddress
  split <;> exact fun h => nomatch h

/-- Only an infinite ceiling has no share at all. -/
lemma drawShare_eq_error_iff {s : Keystream} :
    drawShare ceiling s = .error .infiniteCeiling ↔ ceiling = .infinite false := by
  constructor
  · intro h
    unfold drawShare at h
    split_ifs at h with hpos hinf
    · cases ceiling with
      | infinite negative =>
        cases negative
        · rfl
        · cases hpos
      | _ => cases hinf
    · split at h <;> cases h
  · rintro rfl
    rfl

lemma drawShare_of_negligible (h : ceiling.Negligible) (s : Keystream) :
    drawShare ceiling s = .ok (Binary64.zero, s) := by
  rw [drawShare, Binary64.zero_lt_eq_false_iff.mpr h]
  rfl

theorem choose_eq_error_iff {index : ℕ} {s : Keystream} :
    choose addresses ceiling index s = .error .infiniteCeiling ↔
      ceiling = .infinite false ∧ ∃ r, drawAddress addresses s = .ok r := by
  unfold choose
  cases ha : drawAddress addresses s with
  | error e =>
    have hne : e ≠ .infiniteCeiling := fun he => drawAddress_ne addresses s (he ▸ ha)
    simp [hne]
  | ok r =>
    obtain ⟨address, t⟩ := r
    rw [← drawShare_eq_error_iff (s := t)]
    dsimp only
    cases drawShare ceiling t <;> simp

/-- Without a share, the amount is the least one and only the address takes words. -/
theorem choose_of_negligible (h : ceiling.Negligible) (index : ℕ) (s : Keystream) :
    choose addresses ceiling index s =
      (drawAddress addresses s).map fun r => (⟨index, r.1, leastAmount⟩, r.2) := by
  have hleast : Binary64.zero.add leastAmount = leastAmount := by decide +kernel
  unfold choose
  cases drawAddress addresses s with
  | error e => rfl
  | ok r => simp only [drawShare_of_negligible h, hleast, Except.map]

end Payment

namespace Drill

variable {σ : Type} {d : Drill} {w : Wallet σ}

/-- What keeps the choices of a drill going. -/
structure Drawable (d : Drill) : Prop where
  addresses : d.plan.addresses ≠ []
  ceiling : d.plan.ceiling.isFinite = true
  /-- The word for an address stands for a position of the list. -/
  position : ∀ s address t, Payment.drawAddress d.plan.addresses s = .ok (address, t) →
    ∃ w : UInt64, w.toNat * d.plan.addresses.length / 2 ^ 64 < d.plan.addresses.length ∧
      d.plan.addresses[w.toNat * d.plan.addresses.length / 2 ^ 64]? = some address
  /-- Words for an amount are taken below a positive ceiling only. -/
  share : ∀ s r t, Payment.drawShare d.plan.ceiling s = .ok (r, t) → t ≠ s →
    Binary64.zero.lt d.plan.ceiling = true
  choose : ∀ index s,
    Payment.choose d.plan.addresses d.plan.ceiling index s ≠ .error .infiniteCeiling

lemma drawable_of_isFinite (h : d.plan.ceiling.isFinite = true) : d.Drawable where
  addresses := d.addresses_ne_nil
  ceiling := h
  position := by
    intro s address t ha
    obtain ⟨w, hw⟩ := Payment.position_of_drawAddress ha
    obtain ⟨hlt, -⟩ := List.getElem?_eq_some_iff.mp hw
    exact ⟨w, hlt, hw⟩
  share := by
    intro s r t hr hne
    by_contra hpos
    have hneg := Binary64.zero_lt_eq_false_iff.mp (eq_false_of_ne_true hpos)
    rw [Payment.drawShare_of_negligible hneg] at hr
    exact hne (Prod.mk.inj (Except.ok.inj hr)).2.symm
  choose := by
    intro index s herror
    obtain ⟨hinf, -⟩ := Payment.choose_eq_error_iff.mp herror
    rw [hinf] at h
    cases h

/-- One turn of the loop is stuck where its choice is. -/
lemma infinite_of_loop {left index : ℕ} {s : State σ}
    (h : d.loop w left index s = .error .infiniteCeiling) : d.plan.ceiling = .infinite false := by
  induction left generalizing index s with
  | zero => cases h
  | succ left ih =>
    rw [loop] at h
    split_ifs at h
    cases hc : Payment.choose d.plan.addresses d.plan.ceiling index s.stream with
    | error e =>
      rw [hc] at h
      obtain rfl := Except.error.inj h
      exact (Payment.choose_eq_error_iff.mp hc).1
    | ok r =>
      obtain ⟨p, stream⟩ := r
      rw [hc] at h
      dsimp only at h
      split at h
      · cases h
      · split_ifs at h
        split at h
        · rename_i hl
          obtain rfl := Except.error.inj h
          exact ih hl
        · cases h

lemma infinite_of_run {limit : Limit} {s : State σ}
    (h : d.run w limit s = .error .infiniteCeiling) : d.plan.ceiling = .infinite false := by
  unfold run at h
  split at h
  · rename_i e he
    obtain rfl := Except.error.inj h
    unfold payments at he
    split at he
    · exact infinite_of_loop he
    · split at he
      · rename_i hl
        obtain rfl := Except.error.inj he
        exact infinite_of_loop hl
      · split_ifs at he
        cases he
  · cases h

end Drill

namespace Session

variable {σ : Type} {config : Config} {order : Order} {w : Wallet σ} {capacity : Capacity}
  {s : Drill.State σ}

/-- A session is stuck only with an infinite ceiling, made of what the wallet has just reported. -/
theorem ceilingOf_of_run (h : run config order w capacity s = .error .infiniteCeiling) :
    ∃ b, (w.balances s.wallet).result = .ok b ∧
      Plan.ceilingOf config (b.spendable? config.account) = .ok (.infinite false) := by
  rcases obstacle_or_opened config order w capacity s with ⟨f, calls, written, hob⟩ | ⟨d, hop⟩
  · obtain ⟨o, ho, -⟩ := run_of_obstacle hob
    cases ho.symm.trans h
  · obtain ⟨_, hrun⟩ := run_of_opened hop
    rw [h] at hrun
    obtain ⟨b, answered, prepared⟩ := hop.prepared
    cases hd : d.run w (Limit.ofCount order.count) (unlocked config w s) with
    | error e =>
      rw [hd] at hrun
      obtain rfl := Except.error.inj hrun
      have hinf := Drill.infinite_of_run hd
      obtain ⟨hceiling, -⟩ := prepare_eq_ok prepared
      exact ⟨b, answered, hinf ▸ hceiling⟩
    | ok r =>
      rw [hd] at hrun
      cases hrun

end Session

/-- A configuration of a file is read from a text. -/
lemma Config.exists_of_ofFile {file : List UInt8} {content : Except SystemFault (List UInt8)}
    {config : Config} (h : Config.ofFile file content = .ok config) :
    ∃ text, Config.ofText text = .ok config := by
  unfold Config.ofFile at h
  split at h
  · cases h
  split at h
  · cases h
  · rename_i text _
    cases htext : Config.ofText text with
    | error e =>
      rw [htext] at h
      cases h
    | ok c =>
      rw [htext] at h
      obtain rfl := Except.ok.inj h
      exact ⟨text, htext⟩

/-- Every report of the wallet is read from a text. -/
def Wallet.Reads {σ : Type} (w : Wallet σ) : Prop :=
  ∀ s b, (w.balances s).result = .ok b → ∃ text, Balances.ofText text = .ok b

lemma Wallet.Reads.bounded {σ : Type} {w : Wallet σ} (h : w.Reads) {s : σ} {b : Balances}
    (hb : (w.balances s).result = .ok b) : b.Bounded := by
  obtain ⟨text, htext⟩ := h s b hb
  exact Balances.bounded_of_ofText htext

lemma WalletProgram.reads {σ : Type} (p : WalletProgram) (host : Host σ) :
    (p.wallet host).Reads := by
  intro s b hb
  change (p.balances host s).result = .ok b at hb
  unfold balances at hb
  split at hb
  · cases hb
  · rename_i c t hc
    dsimp only at hb
    refine ⟨Text.Utf8.decodeLossy c.output, ?_⟩
    cases htext : Balances.ofText (Text.Utf8.decodeLossy c.output) with
    | error e =>
      rw [htext] at hb
      cases hb
    | ok b' =>
      rw [htext] at hb
      exact congrArg Except.ok (Except.ok.inj hb)

namespace Session

variable {σ : Type} {config : Config} {w : Wallet σ}

lemma isFinite_of_report (hc : config.Bounded) {b : Balances} (hb : b.Bounded) {c : Binary64}
    (h : Plan.ceilingOf config (b.spendable? config.account) = .ok c) : c.isFinite = true :=
  Plan.isFinite_of_ceilingOf hc (fun _ hx => Balances.isFinite_of_spendable? hb hx) h

lemma run_ne_of_bounded (hc : config.Bounded) (hw : w.Reads) (order : Order) (capacity : Capacity)
    (s : Drill.State σ) : run config order w capacity s ≠ .error .infiniteCeiling := by
  intro h
  obtain ⟨b, answered, hceiling⟩ := ceilingOf_of_run h
  have hfin := isFinite_of_report hc (hw.bounded answered) hceiling
  cases hfin

end Session

namespace Program

/-- Whatever the words, the files, the wallet program and the interrupts are, the program goes
on. -/
lemma run_ne {σ : Type} (a : Surroundings σ) (s : σ) : run a s ≠ .error .infiniteCeiling := by
  intro h
  unfold run at h
  split at h
  · cases h
  · dsimp only at h
    split at h
    · cases h
    · rename_i config hconfig
      obtain ⟨text, htext⟩ := Config.exists_of_ofFile hconfig
      split at h
      · rename_i e he
        obtain rfl := Except.error.inj h
        unfold session at he
        dsimp only at he
        split at he
        · rename_i e' he'
          obtain rfl := Except.error.inj he
          exact Session.run_ne_of_bounded (Config.bounded_of_ofText htext) (WalletProgram.reads _ _)
            _ _ _ he'
        · cases he
      · cases h

/-- What text says never asks for a choice that cannot be made, and what is set without any text
does so by an infinite ceiling alone. -/
structure Unstuck : Prop where
  amount : ∀ text config, Config.ofText text = .ok config → config.maxAmount.isFinite = true
  spendable : ∀ text b, Balances.ofText text = .ok b → ∀ e ∈ b, e.spendable.isFinite = true
  /-- Every drill of a configuration and a report can draw as long as it likes. -/
  drill : ∀ text config report b order d, Config.ofText text = .ok config →
    Balances.ofText report = .ok b →
      Session.prepare config order (b.spendable? config.account) = .ok d →
        d.plan.addresses = config.addresses ∧ d.Drawable
  session : ∀ (σ : Type) (w : Wallet σ) text config order capacity s,
    Config.ofText text = .ok config → w.Reads →
      Session.run config order w capacity s ≠ .error .infiniteCeiling
  program : ∀ (σ : Type) (a : Surroundings σ) s, run a s ≠ .error .infiniteCeiling
  /-- Whatever the configuration and the wallet are, it takes an infinite ceiling to be stuck. -/
  direct : ∀ (σ : Type) (w : Wallet σ) config order capacity s,
    Session.run config order w capacity s = .error .infiniteCeiling →
      ∃ b, (w.balances s.wallet).result = .ok b ∧
        Plan.ceilingOf config (b.spendable? config.account) = .ok (.infinite false)
  ceiling : ∀ config balance, Plan.ceilingOf config balance = .ok (.infinite false) ↔
    config.maxAmount = .infinite false ∨
      config.maxAmount.Negligible ∧ balance = some (.infinite false)
  /-- Among all ceilings only one leaves a choice without its amount. -/
  infinite : ∀ addresses ceiling index s,
    Payment.choose addresses ceiling index s = .error .infiniteCeiling ↔
      ceiling = .infinite false ∧ ∃ r, Payment.drawAddress addresses s = .ok r
  /-- Not a number, negative or zero: the amount is the least one and no word is taken for it. -/
  negligible : ∀ addresses (ceiling : Binary64) index s, ceiling.Negligible →
    Payment.choose addresses ceiling index s =
      (Payment.drawAddress addresses s).map fun r => (⟨index, r.1, Payment.leastAmount⟩, r.2)

theorem run_unstuck : Unstuck where
  amount _ _ := Config.bounded_of_ofText
  spendable _ _ := Balances.bounded_of_ofText
  drill := by
    intro text config report b order d hconfig hreport prepared
    obtain ⟨hceiling, hplan, -⟩ := Session.prepare_eq_ok prepared
    have haddresses : d.plan.addresses = config.addresses := congrArg Plan.addresses hplan
    have hfin := Session.isFinite_of_report (Config.bounded_of_ofText hconfig)
      (Balances.bounded_of_ofText hreport) hceiling
    exact ⟨haddresses, Drill.drawable_of_isFinite hfin⟩
  session _ _ _ _ order capacity s hconfig hw :=
    Session.run_ne_of_bounded (Config.bounded_of_ofText hconfig) hw order capacity s
  program _ := run_ne
  direct _ _ _ _ _ _ := Session.ceilingOf_of_run
  ceiling _ _ := Plan.ceilingOf_eq_infinite_iff
  infinite _ _ _ _ := Payment.choose_eq_error_iff
  negligible _ _ index s h := Payment.choose_of_negligible h index s

/-- A ceiling of a thousandth of a balance, one without a share, and one that has no end. -/
theorem kiosk_unstuck :
    (∃ d, Session.prepare Session.kiosk ⟨5, false, false⟩ (some (Binary64.ofNat 2500)) = .ok d ∧
      d.Drawable ∧ d.plan.ceiling = Binary64.ofDecimal false 25 (-1)) ∧
    (∃ s, Payment.choose ["a1", "a2"] .nan 0 (Keystream.ofSeed 42) =
      .ok (⟨0, "a2", Binary64.ofDecimal false 1 (-1)⟩, s)) ∧
    Payment.choose ["a1", "a2"] (.infinite false) 0 (Keystream.ofSeed 42) =
      .error .infiniteCeiling := by
  have hconfig : Config.ofText "[\"pw\",[\"a1\",\"a2\"],0,1,\"x\"]".toList = .ok Session.kiosk := by
    decide +kernel
  have hreport : Balances.ofText "[[[\"x\",2500]]]".toList = .ok [⟨"x", Binary64.ofNat 2500⟩] := by
    decide +kernel
  have haddress : Payment.drawAddress ["a1", "a2"] (Keystream.ofSeed 42) =
      .ok ("a2", ⟨Keystream.keyOfSeed 42, 1⟩) := by decide +kernel
  obtain ⟨d, hd⟩ : ∃ d, Session.prepare Session.kiosk ⟨5, false, false⟩
      (some (Binary64.ofNat 2500)) = .ok d := ⟨_, rfl⟩
  refine ⟨⟨d, hd, ?_, ?_⟩, ?_, ?_⟩
  · exact (run_unstuck.drill _ _ _ _ _ d hconfig hreport hd).2
  · obtain ⟨hceiling, -⟩ := Session.prepare_eq_ok hd
    have hshare : Plan.ceilingOf Session.kiosk (some (Binary64.ofNat 2500)) =
        .ok (Binary64.ofDecimal false 25 (-1)) := by decide +kernel
    exact Except.ok.inj (hceiling.symm.trans hshare)
  · refine ⟨⟨Keystream.keyOfSeed 42, 1⟩, ?_⟩
    rw [run_unstuck.negligible ["a1", "a2"] .nan 0 _ (.inl rfl), haddress]
    rfl
  · exact (run_unstuck.infinite _ _ _ _).mpr ⟨rfl, _, haddress⟩

end Program

end PaymentDrill
