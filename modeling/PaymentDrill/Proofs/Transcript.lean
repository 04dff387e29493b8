import Mathlib.Data.List.DropRight
import Mathlib.Tactic.Lemma
import Mathlib.Tactic.SplitIfs
import PaymentDrill.Proofs.Encoding
import PaymentDrill.Proofs.Handover
import PaymentDrill.Proofs.Independence
import PaymentDrill.Proofs.Scripted

/-!
# Transcripts

The lines that a drill prints, read back. Nothing in a line is escaped, but its index ends
with its digits and its amount has no blank, so whatever stands between them is the address.
Output that consists of such lines gives back the payments, and with a wallet that prints
nothing itself, that is all the output there is.
-/
namespace PaymentDrill

namespace Text

variable {ls : List (List Char)} {front back : List Char}

/-- Lines that end as they should are found again. -/
lemma lines_flatMap (h : ∀ l ∈ ls, '\n' ∉ l ∧ withoutReturn l = l) :
    lines (ls.flatMap (· ++ ['\n'])) = ls := by
  have hsplit : (ls.flatMap (· ++ ['\n'])).splitOn '\n' = ls ++ [[]] := by
    induction ls with
    | nil => rfl
    | cons l ls ih =>
      rw [List.flatMap_cons, List.append_assoc, List.singleton_append,
        List.splitOn_append_cons_self_of_not_mem (h l List.mem_cons_self).1,
        ih fun l hl => h l (List.mem_cons_of_mem _ hl), List.cons_append]
  have hkept : ls.map withoutReturn = ls :=
    (List.map_congr_left fun l hl => (h l hl).2).trans (List.map_id _)
  rw [lines, hsplit, List.dropLast_concat, hkept, List.getLast?_concat]
  simp

lemma withoutReturn_append (hne : back ≠ []) (h : '\r' ∉ back) :
    withoutReturn (front ++ back) = front ++ back := by
  have hlast : (front ++ back).getLast? ≠ some '\r' := by
    rw [List.getLast?_append, List.getLast?_eq_some_getLast hne, Option.some_or]
    intro hr
    exact h (Option.some.inj hr ▸ List.getLast_mem hne)
  rw [withoutReturn, if_neg hlast]

end Text

namespace Payment

/-- Reads the line of a payment. The index ends with its digits and the amount is what follows the
last blank, so that the address in between can be anything. -/
def ofLine? (line : List Char) : Option Payment := do
  let numbered ← line.dropPrefix? ['[']
  let body ← (numbered.dropWhile Char.isDigit).dropPrefix? "] send to ".toList
  let address ← (body.rdropWhile (· != ' ')).dropSuffix? " amount: ".toList
  let amount ← Binary64.ofText? (body.rtakeWhile (· != ' '))
  return ⟨Nat.ofDigitChars 10 (numbered.takeWhile Char.isDigit) 0, String.ofList address, amount⟩

lemma rtakeWhile_blank (address : List Char) {amount : List Char} (h : ' ' ∉ amount) :
    (address ++ " amount: ".toList ++ amount).rtakeWhile (· != ' ') = amount ∧
      (address ++ " amount: ".toList ++ amount).rdropWhile (· != ' ') =
        address ++ " amount: ".toList := by
  have hall : ∀ c ∈ amount.reverse, (c != ' ') = true := by
    intro c hc
    rw [bne_iff_ne]
    exact ne_of_mem_of_not_mem (List.mem_reverse.mp hc) h
  have hend : " amount: ".toList.reverse = ' ' :: " amount:".toList.reverse := rfl
  rw [List.rtakeWhile, List.rdropWhile, List.reverse_append, List.reverse_append,
    List.takeWhile_append_of_pos hall, List.dropWhile_append_of_pos hall, hend, List.cons_append,
    List.takeWhile_cons_of_neg (by decide), List.dropWhile_cons_of_neg (by decide),
    ← List.cons_append, ← hend, ← List.reverse_append, List.reverse_reverse, List.append_nil,
    List.reverse_reverse]
  exact ⟨rfl, rfl⟩

lemma takeWhile_natText (n : Nat) (cs : List Char) :
    (natText n ++ ']' :: cs).takeWhile Char.isDigit = natText n ∧
      (natText n ++ ']' :: cs).dropWhile Char.isDigit = ']' :: cs := by
  have hall : ∀ c ∈ natText n, c.isDigit = true := fun c hc => Decimal.isDigit_natText hc
  rw [List.takeWhile_append_of_pos hall, List.dropWhile_append_of_pos hall,
    List.takeWhile_cons_of_neg (by decide), List.dropWhile_cons_of_neg (by decide)]
  exact ⟨List.append_nil _, rfl⟩

/-- What is printed of a payment determines it, whatever its address is. -/
theorem ofLine?_line (p : Payment) (h : p.amount ≠ .nan) : ofLine? p.line = some p := by
  obtain ⟨index, address, amount⟩ := p
  have hblank : ' ' ∉ amount.toText := Binary64.not_mem_toText (by decide) (by decide)
  obtain ⟨htake, hdrop⟩ := rtakeWhile_blank address.toList hblank
  obtain ⟨hdigits, hbody⟩ := takeWhile_natText index
    (" send to ".toList ++ (address.toList ++ " amount: ".toList ++ amount.toText))
  have hline : line ⟨index, address, amount⟩ = ['['] ++ (natText index ++ ']' ::
      (" send to ".toList ++ (address.toList ++ " amount: ".toList ++ amount.toText))) := by
    simp [line]
  have hmark : ']' :: (" send to ".toList ++
      (address.toList ++ " amount: ".toList ++ amount.toText)) = "] send to ".toList ++
        (address.toList ++ " amount: ".toList ++ amount.toText) := rfl
  have hnumber : Nat.ofDigitChars 10 (natText index) 0 = index := Nat.ofDigitChars_ten_toDigits
  rw [ofLine?, hline, List.dropPrefix?_append_of_beq _ BEq.rfl, Option.bind_eq_bind,
    Option.bind_some, hbody, hdigits, hmark, List.dropPrefix?_append_of_beq _ BEq.rfl]
  have hsuffix : (address.toList ++ " amount: ".toList).dropSuffix? " amount: ".toList =
      some address.toList := List.dropSuffix?_eq_some_iff.mpr ⟨_, rfl, BEq.rfl⟩
  simp only [Option.bind_eq_bind, Option.bind_some, hdrop, htake, hsuffix,
    Binary64.ofText?_toText h, hnumber, String.ofList_toList]
  rfl

example : ofLine? "[7] send to ] send to 1 amount: 2 amount: -0.5".toList =
    some ⟨7, "] send to 1 amount: 2", Binary64.ofDecimal true 5 (-1)⟩ := by decide +kernel

lemma line_eq (p : Payment) : p.line =
    ('[' :: (natText p.index ++ "] send to ".toList ++ p.address.toList)) ++
      (" amount: ".toList ++ p.amount.toText) := by
  simp [line]

/-- The line of a payment is one line, unless its address is more than that. -/
lemma line_single (p : Payment) (h : '\n' ∉ p.address.toList) :
    '\n' ∉ p.line ∧ Text.withoutReturn p.line = p.line := by
  have hindex : '\n' ∉ natText p.index := fun hmem =>
    absurd (Decimal.isDigit_natText hmem) (by decide)
  have hamount : '\n' ∉ p.amount.toText := Binary64.not_mem_toText (by decide) (by decide)
  have hreturn : '\r' ∉ p.amount.toText := Binary64.not_mem_toText (by decide) (by decide)
  constructor
  · simp [line, hindex, h, hamount]
  · rw [line_eq]
    exact Text.withoutReturn_append (by simp) (by simp [hreturn])

/-- The payments that stand on the standard output, one on each line. -/
def ofOutput? (output : List UInt8) : Option (List Payment) := do
  let text ← Text.Utf8.decode? output
  (Text.lines text).mapM ofLine?

/-- An output that has as many lines as there are payments, and that gives them back. -/
structure Recorded (output : List UInt8) (ps : List Payment) : Prop where
  lines : (Text.Utf8.decode? output).map (fun text => (Text.lines text).length) = some ps.length
  reads : ofOutput? output = some ps

/-- A payment that can be told from its line, and whose line is one. -/
structure Printable (p : Payment) : Prop where
  address : '\n' ∉ p.address.toList
  amount : p.amount ≠ .nan

lemma output_lines (ps : List Payment) : (ps.flatMap fun p => (Event.line p.line).output) =
    Text.Utf8.encode ((ps.map line).flatMap (· ++ ['\n'])) := by
  rw [Text.Utf8.encode, List.flatMap_assoc, List.flatMap_map]
  rfl

lemma recorded_lines {ps : List Payment} (h : ∀ p ∈ ps, p.Printable) :
    Recorded (ps.flatMap fun p => (Event.line p.line).output) ps := by
  have hdecode := Text.Utf8.decode?_eq_some_iff.mpr (output_lines ps)
  have hlines : Text.lines ((ps.map line).flatMap (· ++ ['\n'])) = ps.map line := by
    refine Text.lines_flatMap fun l hl => ?_
    obtain ⟨p, hp, rfl⟩ := List.mem_map.mp hl
    exact line_single p (h p hp).address
  have hread : (ps.map line).mapM ofLine? = some ps := by
    clear hdecode hlines
    induction ps with
    | nil => rfl
    | cons p ps ih =>
      rw [List.map_cons, List.mapM_cons, ofLine?_line p (h p List.mem_cons_self).amount,
        ih fun p hp => h p (List.mem_cons_of_mem _ hp)]
      rfl
  constructor
  · rw [hdecode, Option.map_some, hlines, List.length_map]
  · rw [ofOutput?, hdecode, Option.bind_eq_bind, Option.bind_some, hlines, hread]

/-- What is printed of settled payments is their lines. -/
lemma output_reports (xs : List (Payment × Int32)) :
    Trace.output (xs.flatMap fun x => x.1.report x.2) =
      (xs.map (·.1)).flatMap fun p => (Event.line p.line).output := by
  induction xs with
  | nil => rfl
  | cons x xs ih =>
    rw [List.flatMap_cons, Trace.output_append, ih, Drill.output_report]
    rfl

end Payment

variable {σ : Type} {w : Wallet σ}

/-- A wallet that puts nothing on the standard output. -/
structure Wallet.Quiet (w : Wallet σ) : Prop where
  balances : ∀ x, (w.balances x).passed = []
  unlock : ∀ password x, (w.unlock password x).passed = []
  send : ∀ t x, (w.send t x).passed = []

lemma Script.wallet_quiet (script : Script) : script.wallet.Quiet :=
  ⟨fun _ => rfl, fun _ _ => rfl, fun _ _ => rfl⟩

namespace Drill

variable {d : Drill} {s : State σ}

/-- With a quiet wallet, nothing is printed but the lines of the payments, and in the end the one
about the money. -/
lemma output_of_quiet (quiet : w.Quiet) {left index : Nat} {r : Run σ}
    (h : Course d w left index s r) : r.trace.output =
      ((r.trace.settlements.map (·.1)).flatMap fun p => (Event.line p.line).output) ++
        moneyLine (some r.ending) := by
  have tried (s : State σ) (p : Payment) (stream : Keystream)
      (verdict : (d.tried w s p stream).verdict = none) :
      (d.tried w s p stream).trace.output = (Event.line p.line).output := by
    rw [output_trace, output_query _ _ _ _ _ (quiet.balances _), verdict, quiet.send]
    rfl
  induction h with
  | limit => rfl
  | stop up => rfl
  | refused down tries verdict =>
    obtain ⟨p, stream, -, rfl⟩ := attempt_eq_ok_iff.mp tries
    rw [output_query _ _ _ _ _ (quiet.balances _), settlements_query, verdict]
    rfl
  | failed down tries verdict failure stops =>
    obtain ⟨p, stream, -, rfl⟩ := attempt_eq_ok_iff.mp tries
    rw [Trace.output_append, Trace.settlements_append, settlements_tried, Trace.settlements_noted,
      tried _ p stream verdict]
    simp [Trace.output, Event.output, moneyLine]
  | sent down tries verdict unstopped rest ih =>
    obtain ⟨p, stream, -, rfl⟩ := attempt_eq_ok_iff.mp tries
    rw [Trace.output_append, Trace.settlements_append, settlements_tried, tried _ p stream verdict,
      ih]
    simp

/-- The output of a run is a record of its payments, if they go to addresses of one line each. -/
lemma recorded_of_run (quiet : w.Quiet)
    (single : ∀ a ∈ d.plan.addresses, '\n' ∉ a.toList) {limit : Limit} {r : Run σ}
    (h : d.run w limit s = .ok r) (funded : r.ending ≠ .short) :
    Payment.Recorded r.trace.output r.trace.payments := by
  obtain ⟨left, -, ledger⟩ := ledger_of_run h
  rw [ledger.payments]
  obtain ⟨left, c, -, course, rfl⟩ := run_eq_ok_iff.mp h
  have closing : Trace.output (d.closing c) = [] := by
    unfold Drill.closing
    split_ifs <;> rfl
  obtain ⟨t, ht⟩ := series_of_course course
  have printable : ∀ p ∈ c.trace.settlements.map (·.1), p.Printable := by
    intro p hp
    constructor
    · obtain ⟨x, hx, rfl⟩ := List.mem_map.mp hp
      exact single _ (course.mem_addresses x hx)
    · intro hnan
      have finite := Payment.isFinite_of_series ht p hp
      rw [hnan] at finite
      cases finite
  dsimp only at funded ⊢
  rw [Trace.output_append, Trace.settlements_append, settlements_closing, closing, List.append_nil,
    List.append_nil, output_of_quiet quiet course, moneyLine, if_neg (by simpa using funded),
    List.append_nil]
  exact Payment.recorded_lines printable

/-- The payments of a run are as many as it has sent, and are what the wallet was handed. -/
lemma payments_of_run {limit : Limit} {r : Run σ} (h : d.run w limit s = .ok r) :
    r.trace.payments.length = r.tally.sent ∧
      r.trace.transfers = r.trace.payments.map d.transfer := by
  obtain ⟨left, -, ledger⟩ := ledger_of_run h
  rw [ledger.payments, ledger.transfers, List.length_map, List.map_map]
  exact ⟨ledger.sent, rfl⟩

end Drill

namespace Session

variable {config : Config} {order : Order} {capacity : Capacity} {s : Drill.State σ} {o : Outcome σ}

lemma transfers_of_payments {t : Trace} (h : t.payments = []) : t.transfers = [] :=
  List.mapIdx_eq_nil_iff.mp h

lemma transfers_opening (b : Balances) : (opening config w s b).transfers = [] := by
  rw [← Trace.filterMap_transfer?_calls, calls_opening]
  rfl

lemma output_opening (quiet : w.Quiet) (b : Balances) : (opening config w s b).output = [] := by
  have queried : Trace.output (w.balances s.wallet).events = [] := by
    rw [Reply.output_events, quiet.balances]
  have unlocked (x : σ) : Trace.output (w.unlock config.password x).events = [] := by
    rw [Reply.output_events, quiet.unlock]
  unfold Trace.output at queried unlocked
  simp [opening, Trace.output, Event.output, queried, unlocked]

/-- A session that comes to no drill prints nothing and pays nothing. -/
lemma recorded_of_error (quiet : w.Quiet) {f : Failure}
    (h : run config order w capacity s = .ok o) (hf : o.result = .error f) :
    Payment.Recorded o.trace.output o.trace.payments := by
  obtain ⟨⟨b, early⟩, -⟩ := early_of_error h hf
  obtain ⟨rest, whole⟩ := early
  have silent : (opening config w s b).output = [] := output_opening quiet b
  rw [← whole, Trace.output_append, List.append_eq_nil_iff] at silent
  have unpaid : o.trace.payments = [] := by
    rcases run_eq_ok h with ⟨f', -, obstacle⟩ | ⟨d, b', r, -, -, rfl⟩
    · exact obstacle.payments
    · cases hf
  rw [silent.1, unpaid]
  have printable : ∀ p ∈ ([] : List Payment), p.Printable := fun p hp => nomatch hp
  exact Payment.recorded_lines printable

/-- What a session prints is the record of its drill. -/
lemma recorded_of_drill (quiet : w.Quiet) {d : Drill} {balance : Option Binary64}
    (prepared : prepare config order balance = .ok d)
    (single : ∀ a ∈ config.addresses, '\n' ∉ a.toList) (b : Balances) {limit : Limit}
    {x : Drill.State σ} {r : Drill.Run σ} (hr : d.run w limit x = .ok r)
    (funded : r.ending ≠ .short) :
    Payment.Recorded (opening config w s b ++ r.trace).output
      (opening config w s b ++ r.trace).payments ∧
    (opening config w s b ++ r.trace).payments.length = r.tally.sent ∧
    (opening config w s b ++ r.trace).transfers = (opening config w s b ++ r.trace).payments.map
      fun p => ⟨config.account, p.address, p.amount, config.minConfirmations⟩ := by
  obtain ⟨-, hplan, -⟩ := prepare_eq_ok prepared
  have listed : ∀ a ∈ d.plan.addresses, '\n' ∉ a.toList := by
    rw [hplan]
    exact single
  obtain ⟨sent, transfers⟩ := Drill.payments_of_run hr
  rw [Trace.output_append, output_opening quiet, payments_opening, List.nil_append,
    Trace.transfers_append, transfers_opening, List.nil_append, transfers]
  refine ⟨Drill.recorded_of_run quiet listed hr funded, sent, ?_⟩
  refine List.map_congr_left fun p _ => ?_
  rw [Drill.transfer, hplan]

end Session

/-- What the standard output tells about payments. -/
structure Legible (w : Wallet σ) : Prop where
  /-- A line gives back its payment, whatever the address is. -/
  line : ∀ p : Payment, p.amount ≠ .nan → Payment.ofLine? p.line = some p
  reports : ∀ xs : List (Payment × Int32), (∀ x ∈ xs, x.1.Printable) →
    Payment.Recorded (Trace.output (xs.flatMap fun x => x.1.report x.2)) (xs.map (·.1))
  /-- A drill that the balance does not end leaves a record of what the wallet was handed. -/
  drill : ∀ (d : Drill) (limit : Limit) (s : Drill.State σ) (r : Drill.Run σ),
    (∀ a ∈ d.plan.addresses, '\n' ∉ a.toList) → d.run w limit s = .ok r → r.ending ≠ .short →
      Payment.Recorded r.trace.output r.trace.payments ∧
        r.trace.payments.length = r.tally.sent ∧
          r.trace.transfers = r.trace.payments.map d.transfer
  session : ∀ (config : Config) (order : Order) (capacity : Capacity) (s : Drill.State σ)
    (o : Session.Outcome σ), (∀ a ∈ config.addresses, '\n' ∉ a.toList) →
      Session.run config order w capacity s = .ok o → .line Drill.noMoney ∉ o.trace →
        Payment.Recorded o.trace.output o.trace.payments ∧
          (∀ tally, o.result = .ok tally → o.trace.payments.length = tally.sent) ∧
            o.trace.transfers = o.trace.payments.map fun p =>
              ⟨config.account, p.address, p.amount, config.minConfirmations⟩

/-- The record of a drill can be read back, if nobody else writes to it. -/
theorem record_legible (w : Wallet σ) (quiet : w.Quiet) : Legible w where
  line p h := p.ofLine?_line h
  reports xs h := by
    rw [Payment.output_reports]
    refine Payment.recorded_lines fun p hp => ?_
    obtain ⟨x, hx, rfl⟩ := List.mem_map.mp hp
    exact h x hx
  drill d limit s r single h funded :=
    ⟨Drill.recorded_of_run quiet single h funded, Drill.payments_of_run h⟩
  session config order capacity s o single h funded := by
    rcases Session.run_eq_ok h with ⟨f, hf, obstacle⟩ | ⟨d, b, r, hop, hr, rfl⟩
    · refine ⟨Session.recorded_of_error quiet h hf, fun tally hok => ?_, ?_⟩
      · rw [hf] at hok
        cases hok
      · rw [Session.transfers_of_payments obstacle.payments, obstacle.payments]
        rfl
    · obtain ⟨b', -, prepared⟩ := hop.prepared
      rw [List.mem_append, not_or, Drill.noMoney_mem_iff hr] at funded
      obtain ⟨recorded, sent, transfers⟩ :=
        Session.recorded_of_drill quiet prepared single b hr funded.2
      exact ⟨recorded, fun tally hok => Except.ok.inj hok ▸ sent, transfers⟩

/-- Two payments that a drill has sent before it could not ask for the balance any more, as they
are read from its output. -/
theorem faltering_legible : Drill.faltering.wallet.Quiet ∧
    ∃ r, Drill.pair.run Drill.faltering.wallet (.count 5) Drill.start = .ok r ∧ r.ending ≠ .short ∧
      Payment.Recorded r.trace.output r.trace.payments ∧ r.trace.payments.length = 2 := by
  have quiet := Drill.faltering.wallet_quiet
  obtain ⟨r, hr, hend⟩ : ∃ r, Drill.pair.run Drill.faltering.wallet (.count 5) Drill.start = .ok r ∧
      (r.tally.sent, r.ending) = (2, .unknown) :=
    Drill.exists_ok_of_toOption
      (f := fun r : Drill.Run Script.Counters => (r.tally.sent, r.ending)) (by decide +kernel)
  obtain ⟨hsent, hending⟩ := Prod.mk.inj hend
  have funded : r.ending ≠ .short := by
    rw [hending]
    exact nofun
  obtain ⟨recorded, sent, -⟩ :=
    (record_legible _ quiet).drill Drill.pair (.count 5) Drill.start r (by decide) hr funded
  exact ⟨quiet, r, hr, funded, recorded, sent.trans hsent⟩

end PaymentDrill
