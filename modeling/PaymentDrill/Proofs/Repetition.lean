import Mathlib.Tactic.Ring
import PaymentDrill.Proofs.Phrasing

/-!
# Saying something twice

A line that says what an invocation is says it without repeating itself, and any further switch
or count in it is complained about. Every word of a line that is read counts for something: the
switches that the reading has come across and the values that no setting has asked for are as
many as there are words for them. An invocation has room for one of each, so a line with more
of them is not read, wherever the additional words stand, even between a setting and its value.
What is not read is complained about, since only help and version end a reading otherwise.
-/
namespace PaymentDrill.CommandLine

open Text
open Json (map_eq_ok_iff)

/-- The words that pieces are written with, and numbers below zero. -/
inductive Ordinary : List UInt8 → Prop
  | plain {w : List UInt8} (h : Plain w) : Ordinary w
  | setting (s : Setting) : Ordinary (Switch.word (.setting s))
  | attached (s : Setting) (v : List UInt8) : Ordinary (Switch.attached (.setting s) v)
  | stopOnFailure : Ordinary (Switch.word (.flag .stopOnFailure))
  | checkBalance : Ordinary (Switch.word (.flag .checkBalance))
  | negative (n : Nat) : Ordinary (dash :: Utf8.encode (natText n))

/-- What an ordinary word does to the progress of a reading. -/
inductive Moves (p : Progress) : List UInt8 → Progress → Prop
  | value {s : Setting} {w : List UInt8} (plain : Plain w) (waits : p.pending = .setting s none) :
      Moves p w { p with pending := .setting s (some w) }
  | count {j : Invocation} {w : List UInt8} (plain : Plain w)
      (idle : ∀ s, p.pending ≠ .setting s none) (uncounted : p.counted = false)
      (hj : p.settle = .ok j) :
      Moves p w { p with settled := j, pending := .count w, counted := true }
  | setting {s : Setting} {j : Invocation} (hj : p.settle = .ok j) :
      Moves p (Switch.word (.setting s)) { p with settled := j, pending := .setting s none }
  | attached {s : Setting} {v : List UInt8} {j k : Invocation} (hj : p.settle = .ok j)
      (hk : take s v j = .ok k) :
      Moves p (Switch.attached (.setting s) v) { p with settled := k, pending := .nothing }
  | flag {f : Flag} {j k : Invocation} (hj : p.settle = .ok j) (hk : raise f j = .ok k) :
      Moves p (Switch.word (.flag f)) { p with settled := k, pending := .nothing }

variable {p p' q : Progress} {i j k : Invocation} {s : Setting} {v w : List UInt8}
  {us vs ws line extra : List (List UInt8)} {ps : List Piece}

lemma ofBytes_negative (n : Nat) :
    Word.ofBytes (dash :: Utf8.encode (natText n)) = .short (Utf8.encode (natText n)) := by
  obtain ⟨b, bs, hbytes, hlow, -⟩ := exists_digit n
  have hdash : b ≠ dash := fun hb => absurd (hb ▸ hlow) (by decide)
  rw [hbytes, Word.ofBytes, if_neg (by simp), if_pos hdash]

/-- A dash in front of a number makes it a group of short names, and none of them exists. -/
lemma step_negative (n : Nat) (h : p.onlyValues = false) :
    ∃ c, p.step (dash :: Utf8.encode (natText n)) = complain c := by
  obtain ⟨b, bs, hbytes, hlow, hhigh⟩ := exists_digit n
  rw [Progress.step, if_neg (by simp [h]), ofBytes_negative]
  dsimp only
  rw [Progress.readShort, hbytes]
  split
  · rename_i hhead
    cases hhead
    exact absurd hhigh (by decide)
  · rename_i hhead
    cases hhead
    exact absurd hhigh (by decide)
  · exact ⟨_, rfl⟩

lemma settleThen_eq_ok {act : Invocation → Except Halt Invocation}
    (h : p.settleThen act = .ok p') : ∃ j k, p.settle = .ok j ∧ act j = .ok k ∧
      p' = { p with settled := k, pending := .nothing } := by
  unfold Progress.settleThen at h
  split at h
  · cases h
  · rename_i j hj
    obtain ⟨k, hk, rfl⟩ := map_eq_ok_iff.mp h
    exact ⟨j, k, hj, hk, rfl⟩

lemma moves_of_flag {f : Flag} (hp : p.onlyValues = false)
    (h : p.step (Switch.word (.flag f)) = .ok p') : Moves p (Switch.word (.flag f)) p' := by
  rw [step_flag f hp] at h
  obtain ⟨j, k, hj, hk, rfl⟩ := settleThen_eq_ok h
  exact .flag hj hk

/-- Everything that a step with an ordinary word can do. -/
lemma moves_of_step (hp : p.onlyValues = false) (hw : Ordinary w) (h : p.step w = .ok p') :
    Moves p w p' := by
  cases hw with
  | plain plain =>
    rw [step_plain hp plain, Progress.readValue] at h
    split at h
    · rename_i s waits
      obtain rfl := Except.ok.inj h
      exact .value plain waits
    · rename_i idle
      unfold Progress.readCount at h
      split_ifs at h with hcounted
      · cases h
      · split at h
        · cases h
        · rename_i j hj
          obtain rfl := Except.ok.inj h
          exact .count plain (fun s hs => idle s hs) (eq_false_of_ne_true hcounted) hj
  | setting s =>
    rw [step_setting hp] at h
    obtain ⟨p'', hthen, rfl⟩ := map_eq_ok_iff.mp h
    obtain ⟨j, k, hj, hk, rfl⟩ := settleThen_eq_ok hthen
    obtain rfl := Except.ok.inj hk
    exact .setting hj
  | attached s v =>
    rw [step_attached hp] at h
    obtain ⟨j, k, hj, hk, rfl⟩ := settleThen_eq_ok h
    exact .attached hj hk
  | stopOnFailure => exact moves_of_flag hp h
  | checkBalance => exact moves_of_flag hp h
  | negative n =>
    obtain ⟨c, hc⟩ := step_negative n hp
    rw [hc] at h
    cases h

lemma Moves.unmarked (h : Moves p w p') : p'.onlyValues = p.onlyValues := by
  cases h <;> rfl

/-- What every move adds to is, in the end, the sum of what it has added. -/
lemma sum_of_readAll {gain : List UInt8 → ℤ} {level : Progress → ℤ}
    (hgain : ∀ p w p', Moves p w p' → level p' = level p + gain w) (hp : p.onlyValues = false)
    (hws : ∀ w ∈ ws, Ordinary w) (h : p.readAll ws = .ok i) :
    ∃ q, q.settle = .ok i ∧ level q = level p + (ws.map gain).sum := by
  induction ws generalizing p with
  | nil => exact ⟨p, h, by simp⟩
  | cons w ws ih =>
    rw [List.forall_mem_cons] at hws
    rw [Progress.readAll] at h
    split at h
    · cases h
    · rename_i p' hstep
      have hmove := moves_of_step hp hws.1 hstep
      obtain ⟨q, hq, hlevel⟩ := ih (hmove.unmarked.trans hp) hws.2 h
      refine ⟨q, hq, ?_⟩
      rw [hlevel, hgain p w p' hmove, List.map_cons, List.sum_cons, add_assoc]

/-- Whether a word has the name of the switch. -/
def mentions (x : Switch) (w : List UInt8) : ℤ :=
  match Word.ofBytes w with
  | .long name _ => if switch? name = some x then 1 else 0
  | _ => 0

/-- One for a value, be it below zero, and one less for a setting that waits for it. -/
def surplus (w : List UInt8) : ℤ :=
  match Word.ofBytes w with
  | .value _ => 1
  | .short _ => 1
  | .long name none =>
    match switch? name with
    | some (.setting _) => -1
    | _ => 0
  | _ => 0

/-- What a word adds to the occurrences of a switch, or of the count. -/
def gain : Option Switch → List UInt8 → ℤ
  | some x => mentions x
  | none => surplus

/-- Whether the invocation says something about the switch. -/
def Invocation.has (i : Invocation) : Switch → Bool
  | .setting .config => i.config.isSome
  | .setting .walletCli => i.walletCli.isSome
  | .setting .seed => i.seed.isSome
  | .flag .stopOnFailure => i.stopOnFailure
  | .flag .checkBalance => i.checkBalance
  | .flag _ => false

def Pending.switch? : Pending → Option Switch
  | .setting s _ => some (.setting s)
  | _ => none

def Pending.awaits : Pending → Bool
  | .setting _ none => true
  | _ => false

/-- How often the switch has occurred so far, or the count. -/
def level (y : Option Switch) (p : Progress) : ℤ :=
  match y with
  | some x => (p.settled.has x).toNat + if p.pending.switch? = some x then 1 else 0
  | none => p.counted.toNat - p.pending.awaits.toNat

lemma gain_plain (h : Plain w) (y : Option Switch) : gain y w = if y = none then 1 else 0 := by
  cases y <;> simp [gain, mentions, surplus, h.ofBytes]

lemma gain_attached (s : Setting) (v : List UInt8) (y : Option Switch) :
    gain y (Switch.attached (.setting s) v) = if y = some (.setting s) then 1 else 0 := by
  have hswitch := (name_shape (.setting s)).2.2
  cases y with
  | none => simp [gain, surplus, ofBytes_attached]
  | some y => simp [gain, mentions, ofBytes_attached, hswitch, eq_comm]

lemma gain_setting (s : Setting) (y : Option Switch) : gain y (Switch.word (.setting s)) =
    (if y = some (.setting s) then 1 else 0) - if y = none then 1 else 0 := by
  have hswitch := (name_shape (.setting s)).2.2
  cases y with
  | none => simp [gain, surplus, ofBytes_word, hswitch]
  | some y => simp [gain, mentions, ofBytes_word, hswitch, eq_comm]

lemma gain_flag (f : Flag) (y : Option Switch) :
    gain y (Switch.word (.flag f)) = if y = some (.flag f) then 1 else 0 := by
  have hswitch := (name_shape (.flag f)).2.2
  cases y with
  | none => simp [gain, surplus, ofBytes_word, hswitch]
  | some y => simp [gain, mentions, ofBytes_word, hswitch, eq_comm]

lemma gain_negative (n : Nat) (y : Option Switch) :
    gain y (dash :: Utf8.encode (natText n)) = if y = none then 1 else 0 := by
  cases y <;> simp [gain, mentions, surplus, ofBytes_negative]

lemma has_put (x : Piece) (i : Invocation) (y : Switch) :
    (x.put i).has y = (i.has y || decide (x.switch? = some y)) := by
  cases y with
  | setting s => cases s <;> cases x <;> simp [Piece.put, Piece.switch?, Invocation.has]
  | flag f => cases f <;> cases x <;> simp [Piece.put, Piece.switch?, Invocation.has]

/-- What is taken is a piece that was not there. -/
lemma put_of_take (h : take s v i = .ok j) :
    ∃ x : Piece, x.switch? = some (.setting s) ∧ i.has (.setting s) = false ∧ j = x.put i := by
  cases s with
  | config =>
    rw [take] at h
    split_ifs at h with hsome
    · cases h
    · cases h
    · exact ⟨.config v, rfl, eq_false_of_ne_true hsome, (Except.ok.inj h).symm⟩
  | walletCli =>
    rw [take] at h
    split_ifs at h with hsome
    · cases h
    · obtain ⟨cs, -, rfl⟩ := map_eq_ok_iff.mp h
      exact ⟨.walletCli (String.ofList cs), rfl, eq_false_of_ne_true hsome, rfl⟩
  | seed =>
    rw [take] at h
    split_ifs at h with hsome
    · cases h
    · obtain ⟨n, -, rfl⟩ := map_eq_ok_iff.mp h
      exact ⟨.seed n, rfl, eq_false_of_ne_true hsome, rfl⟩

lemma put_of_takeCount (h : takeCount v i = .ok j) : ∃ n, j = Piece.put (.count n) i := by
  obtain ⟨n, -, rfl⟩ := map_eq_ok_iff.mp h
  exact ⟨n, rfl⟩

lemma put_of_raise {f : Flag} (h : raise f i = .ok j) :
    ∃ x : Piece, x.switch? = some (.flag f) ∧ i.has (.flag f) = false ∧ j = x.put i := by
  cases f with
  | stopOnFailure =>
    rw [raise] at h
    split_ifs at h with hup
    · cases h
    · exact ⟨.stopOnFailure, rfl, eq_false_of_ne_true hup, (Except.ok.inj h).symm⟩
  | checkBalance =>
    rw [raise] at h
    split_ifs at h with hup
    · cases h
    · exact ⟨.checkBalance, rfl, eq_false_of_ne_true hup, (Except.ok.inj h).symm⟩
  | help => cases h
  | version => cases h

/-- A new piece adds to its own switch and to no other. -/
lemma toNat_has_put {x : Piece} {y : Switch} (hx : x.switch? = some y) (h : i.has y = false)
    (z : Switch) :
    (((x.put i).has z).toNat : ℤ) = (i.has z).toNat + if y = z then 1 else 0 := by
  rw [has_put, hx]
  by_cases hyz : y = z
  · subst hyz
    simp [h]
  · simp [hyz]

/-- Settling keeps every level, if it succeeds. -/
lemma level_of_settle (h : p.settle = .ok j) (y : Option Switch) : level y p =
    match y with
    | some x => ((j.has x).toNat : ℤ)
    | none => p.counted.toNat := by
  unfold Progress.settle at h
  cases hpending : p.pending with
  | nothing =>
    rw [hpending] at h
    obtain rfl := Except.ok.inj h
    cases y <;> simp [level, hpending, Pending.switch?, Pending.awaits]
  | count w =>
    rw [hpending] at h
    obtain ⟨n, rfl⟩ := put_of_takeCount h
    cases y <;> simp [level, hpending, Pending.switch?, Pending.awaits, has_put, Piece.switch?]
  | setting s value =>
    cases value with
    | none =>
      rw [hpending] at h
      cases h
    | some w =>
      rw [hpending] at h
      obtain ⟨x, hx, hfree, rfl⟩ := put_of_take h
      cases y with
      | none => simp [level, hpending, Pending.awaits]
      | some y => simp [level, hpending, Pending.switch?, toNat_has_put hx hfree]

/-- Every move raises the levels by what its word adds. -/
lemma level_of_moves (y : Option Switch) (h : Moves p w p') :
    level y p' = level y p + gain y w := by
  cases h with
  | value plain waits =>
    rw [gain_plain plain]
    cases y <;> simp [level, waits, Pending.switch?, Pending.awaits]
  | count plain idle uncounted hj =>
    rw [gain_plain plain, level_of_settle hj]
    cases y <;> simp [level, uncounted, Pending.switch?, Pending.awaits]
  | setting hj =>
    rw [gain_setting, level_of_settle hj]
    cases y <;> simp [level, Pending.switch?, Pending.awaits, eq_comm, sub_eq_add_neg]
  | attached hj hk =>
    obtain ⟨x, hx, hfree, rfl⟩ := put_of_take hk
    rw [gain_attached, level_of_settle hj]
    cases y with
    | none => simp [level, Pending.awaits]
    | some y => simp [level, Pending.switch?, toNat_has_put hx hfree, eq_comm]
  | flag hj hk =>
    obtain ⟨x, hx, hfree, rfl⟩ := put_of_raise hk
    rw [gain_flag, level_of_settle hj]
    cases y with
    | none => simp [level, Pending.awaits]
    | some y => simp [level, Pending.switch?, toNat_has_put hx hfree, eq_comm]

/-- The halts that are complaints; the others were asked for. -/
def Complains {α : Type} (x : Except Halt α) : Prop := ∀ h, x = .error h → ∃ c, h = .complaint c

lemma complains_ok {α : Type} (a : α) : Complains (.ok a : Except Halt α) := by
  intro h heq
  cases heq

lemma complains_complain {α : Type} (c : Complaint) : Complains (complain c : Except Halt α) := by
  intro h heq
  exact ⟨c, (Except.error.inj heq).symm⟩

/-- An error that is handed on. -/
lemma Complains.rethrow {α β : Type} {x : Except Halt α} {e : Halt} (hx : Complains x)
    (he : x = .error e) : Complains (.error e : Except Halt β) := by
  intro h heq
  obtain rfl := Except.error.inj heq
  exact hx e he

lemma Complains.map {α β : Type} {x : Except Halt α} (hx : Complains x) (f : α → β) :
    Complains (x.map f) := by
  cases x with
  | error e => exact hx.rethrow rfl
  | ok a => exact complains_ok _

lemma complains_textOf (v : List UInt8) : Complains (textOf v) := by
  unfold textOf
  split
  · exact complains_ok _
  · exact complains_complain _

lemma complains_numberOf (complaint : String → NumeralFault → Complaint) (v : List UInt8) :
    Complains (numberOf complaint v) := by
  unfold numberOf
  split
  · rename_i e he
    exact (complains_textOf v).rethrow he
  · split
    · exact complains_complain _
    · exact complains_ok _

lemma complains_take (s : Setting) (v : List UInt8) (i : Invocation) : Complains (take s v i) := by
  cases s with
  | config =>
    rw [take]
    split_ifs
    · exact complains_complain _
    · exact complains_complain _
    · exact complains_ok _
  | walletCli =>
    rw [take]
    split_ifs
    · exact complains_complain _
    · exact (complains_textOf v).map _
  | seed =>
    rw [take]
    split_ifs
    · exact complains_complain _
    · exact (complains_numberOf _ v).map _

/-- The flags of an invocation; the other two end the reading. -/
lemma complains_raise {f : Flag} (hf : f = .stopOnFailure ∨ f = .checkBalance)
    (i : Invocation) : Complains (raise f i) := by
  obtain rfl | rfl := hf <;>
  · rw [raise]
    split_ifs
    · exact complains_complain _
    · exact complains_ok _

lemma complains_settle (p : Progress) : Complains p.settle := by
  unfold Progress.settle
  split
  · exact complains_ok _
  · exact complains_complain _
  · exact complains_take _ _ _
  · exact (complains_numberOf _ _).map _

lemma complains_settleThen (p : Progress) {act : Invocation → Except Halt Invocation}
    (hact : ∀ j, Complains (act j)) : Complains (p.settleThen act) := by
  unfold Progress.settleThen
  split
  · rename_i e he
    exact (complains_settle p).rethrow he
  · exact (hact _).map _

lemma complains_step (hp : p.onlyValues = false) (hw : Ordinary w) : Complains (p.step w) := by
  cases hw with
  | plain plain =>
    rw [step_plain hp plain, Progress.readValue]
    split
    · exact complains_ok _
    · unfold Progress.readCount
      split_ifs
      · exact complains_complain _
      · split
        · rename_i e he
          exact (complains_settle p).rethrow he
        · exact complains_ok _
  | setting s =>
    rw [step_setting hp]
    exact (complains_settleThen p complains_ok).map _
  | attached s v =>
    rw [step_attached hp]
    exact complains_settleThen p (complains_take s v)
  | stopOnFailure =>
    rw [step_flag _ hp]
    exact complains_settleThen p (complains_raise (.inl rfl))
  | checkBalance =>
    rw [step_flag _ hp]
    exact complains_settleThen p (complains_raise (.inr rfl))
  | negative n =>
    obtain ⟨c, hc⟩ := step_negative n hp
    rw [hc]
    exact complains_complain c

lemma complains_readAll (hp : p.onlyValues = false) (hws : ∀ w ∈ ws, Ordinary w) :
    Complains (p.readAll ws) := by
  induction ws generalizing p with
  | nil => exact complains_settle p
  | cons w ws ih =>
    rw [List.forall_mem_cons] at hws
    have hstep := complains_step hp hws.1
    rw [Progress.readAll]
    split
    · rename_i e he
      exact hstep.rethrow he
    · rename_i p' hp'
      exact ih ((moves_of_step hp hws.1 hp').unmarked.trans hp) hws.2

lemma ordinary_of_given (h : Given s v ws) : ∀ w ∈ ws, Ordinary w := by
  cases h with
  | attached => simpa using Ordinary.attached s v
  | separate plain => simpa using ⟨Ordinary.setting s, Ordinary.plain plain⟩

lemma gain_of_given (h : Given s v ws) (y : Option Switch) :
    (ws.map (gain y)).sum = if y = some (.setting s) then 1 else 0 := by
  cases h with
  | attached => simp [gain_attached]
  | separate plain => simp [gain_setting, gain_plain plain]

lemma ordinary_of_written {x : Piece} (h : Written x ws) : ∀ w ∈ ws, Ordinary w := by
  cases h with
  | count n => simpa using Ordinary.plain (plain_natText n.toNat)
  | config hg => exact ordinary_of_given hg
  | walletCli hg => exact ordinary_of_given hg
  | seed hg => exact ordinary_of_given hg
  | stopOnFailure => simpa using Ordinary.stopOnFailure
  | checkBalance => simpa using Ordinary.checkBalance

/-- Each piece adds one occurrence of its switch, or of the count. -/
lemma gain_of_written {x : Piece} (h : Written x ws) (y : Option Switch) :
    (ws.map (gain y)).sum = if y = x.switch? then 1 else 0 := by
  have flagged (f : Flag) : ([Switch.word (.flag f)].map (gain y)).sum =
      if y = some (.flag f) then 1 else 0 := by
    simp [gain_flag]
  cases h with
  | count n =>
    rw [List.map_singleton, List.sum_singleton, gain_plain (plain_natText _)]
    rfl
  | config hg => exact gain_of_given hg y
  | walletCli hg => exact gain_of_given hg y
  | seed hg => exact gain_of_given hg y
  | stopOnFailure => exact flagged .stopOnFailure
  | checkBalance => exact flagged .checkBalance

lemma ordinary_of_spelled (h : Spelled ps line) : ∀ w ∈ line, Ordinary w := by
  induction h with
  | nil => exact fun w hw => nomatch hw
  | cons hx rest ih => exact List.forall_mem_append.mpr ⟨ordinary_of_written hx, ih⟩

/-- A line has as many occurrences of a switch, or of the count, as there are pieces of it. -/
lemma gain_of_spelled (h : Spelled ps line) (y : Option Switch) :
    (line.map (gain y)).sum = (ps.map Piece.switch?).count y := by
  induction h with
  | nil => simp
  | @cons x ps ws line hx rest ih =>
    rw [List.map_append, List.sum_append, gain_of_written hx, ih, List.map_cons, List.count_cons]
    by_cases hy : x.switch? = y
    · subst hy
      simp [add_comm]
    · rw [if_neg (fun h => hy h.symm), if_neg (by simpa using hy)]
      simp

lemma exists_spelled (ps : List Piece) : ∃ line, Spelled ps line := by
  induction ps with
  | nil => exact ⟨[], .nil⟩
  | cons x ps ih =>
    obtain ⟨line, hline⟩ := ih
    have written : ∃ ws, Written x ws := by
      cases x with
      | count n => exact ⟨_, .count n⟩
      | config path => exact ⟨_, .config .attached⟩
      | walletCli name => exact ⟨_, .walletCli .attached⟩
      | seed n => exact ⟨_, .seed .attached⟩
      | stopOnFailure => exact ⟨_, .stopOnFailure⟩
      | checkBalance => exact ⟨_, .checkBalance⟩
    obtain ⟨ws, hws⟩ := written
    exact ⟨ws ++ line, .cons hws hline⟩

/-- The ways to say again what some pieces say: a switch with any value, or another number, or
any word that could be taken for one. -/
inductive Doubles (ps : List Piece) : List (List UInt8) → Prop
  | setting {x : Piece} {s : Setting} {v : List UInt8} {ws : List (List UInt8)} (hx : x ∈ ps)
      (hs : x.switch? = some (.setting s)) (h : Given s v ws) : Doubles ps ws
  | flag {x : Piece} {f : Flag} (hx : x ∈ ps) (hf : x.switch? = some (.flag f)) :
      Doubles ps [Switch.word (.flag f)]
  | count {n : UInt64} {w : List UInt8} (hn : .count n ∈ ps) (plain : Plain w) : Doubles ps [w]
  | negative {n : UInt64} (hn : .count n ∈ ps) (m : Nat) :
      Doubles ps [dash :: Utf8.encode (natText m)]

/-- What is said again occurs once more. -/
lemma Doubles.gain (h : Doubles ps extra) : (∀ w ∈ extra, Ordinary w) ∧
    ∃ y ∈ ps.map Piece.switch?, (extra.map (CommandLine.gain y)).sum = 1 := by
  cases h with
  | @setting x s v ws hx hs hg =>
    refine ⟨ordinary_of_given hg, _, List.mem_map_of_mem hx, ?_⟩
    rw [hs, gain_of_given hg, if_pos rfl]
  | @flag x f hx hf =>
    refine ⟨?_, _, List.mem_map_of_mem hx, ?_⟩
    · cases x <;> cases hf
      · simpa using Ordinary.stopOnFailure
      · simpa using Ordinary.checkBalance
    · simp [hf, gain_flag]
  | @count n w hn plain =>
    refine ⟨by simpa using Ordinary.plain plain, none, List.mem_map_of_mem hn, ?_⟩
    simp [gain_plain plain]
  | @negative n hn m =>
    refine ⟨by simpa using Ordinary.negative m, none, List.mem_map_of_mem hn, ?_⟩
    rw [List.map_singleton, List.sum_singleton, gain_negative]
    rfl

/-- Whatever is read has no switch twice, and no second count. -/
lemma gain_le_one (hws : ∀ w ∈ ws, Ordinary w) (h : read ws = .ok i) (y : Option Switch) :
    (ws.map (gain y)).sum ≤ 1 := by
  obtain ⟨q, hq, hlevel⟩ := sum_of_readAll (fun p w p' => level_of_moves y) rfl hws h
  have hstart : level y .start = 0 := by
    cases y with
    | none => rfl
    | some x =>
      cases x with
      | setting s => cases s <;> rfl
      | flag f => cases f <;> rfl
  rw [hstart, zero_add, level_of_settle hq] at hlevel
  rw [← hlevel]
  have hbool (b : Bool) : (b.toNat : ℤ) ≤ 1 := by cases b <;> decide
  cases y with
  | none => exact hbool _
  | some x => exact hbool _

/-- An invocation and the lines that it is written as: each of them is read as that invocation, and
to say more is an error, wherever it is said. -/
structure Reread (i : Invocation) : Prop where
  writable : ∀ ps, ∃ line, Spelled ps line
  arranged : ∀ ps line, i.Arranged ps → Spelled ps line → read line = .ok i
  doubled : ∀ ps us vs extra, i.Arranged ps → Spelled ps (us ++ vs) → Doubles ps extra →
    ∃ c, read (us ++ (extra ++ vs)) = .error (.complaint c)

/-- No part of a command line is passed over or overridden by another. -/
theorem read_reread (i : Invocation) (path : i.config ≠ some []) : Reread i where
  writable := exists_spelled
  arranged ps line h hline := Invocation.read_of_arranged path h hline
  doubled ps us vs extra h hline doubles := by
    obtain ⟨hextra, y, hy, hgain⟩ := doubles.gain
    have hordinary := ordinary_of_spelled hline
    rw [List.forall_mem_append] at hordinary
    have hwords : ∀ w ∈ us ++ (extra ++ vs), Ordinary w := by
      rw [List.forall_mem_append, List.forall_mem_append]
      exact ⟨hordinary.1, hextra, hordinary.2⟩
    have hsum : (((us ++ (extra ++ vs)).map (gain y)).sum : ℤ) =
        (ps.map Piece.switch?).count y + 1 := by
      rw [← gain_of_spelled hline, List.map_append, List.map_append, List.map_append,
        List.sum_append, List.sum_append, List.sum_append, hgain]
      ring
    have hpresent : 1 ≤ (ps.map Piece.switch?).count y := List.one_le_count_iff.mpr hy
    cases hread : read (us ++ (extra ++ vs)) with
    | error e =>
      obtain ⟨c, rfl⟩ := complains_readAll rfl hwords e hread
      exact ⟨c, rfl⟩
    | ok j =>
      have hle := gain_le_one hwords hread y
      omega

/-- An invocation whose configuration looks like a switch, and whose wallet program has no name. -/
def errand : Invocation where
  count := 3
  config := some (Utf8.encode "--seed=1 x".toList)
  walletCli := some ""
  seed := some 7
  stopOnFailure := true
  checkBalance := false

def wordsOf (texts : List String) : List (List UInt8) := texts.map fun t => Utf8.encode t.toList

def errandPieces : List Piece :=
  [.stopOnFailure, .seed 7, .config (Utf8.encode "--seed=1 x".toList), .count 3, .walletCli ""]

/-- A line for it, and a second seed between the first one and its value. -/
theorem errand_reread :
    read (wordsOf ["--stop-on-failure", "--seed", "7", "--config=--seed=1 x", "3",
      "--wallet-cli="]) = .ok errand ∧
    ∃ c, read (wordsOf ["--stop-on-failure", "--seed"] ++ (wordsOf ["--seed=8"] ++
      wordsOf ["7", "--config=--seed=1 x", "3", "--wallet-cli="])) = .error (.complaint c) := by
  have reread := read_reread errand (by decide)
  have arranged : errand.Arranged errandPieces := .inl (by decide)
  have spelled : Spelled errandPieces (wordsOf ["--stop-on-failure", "--seed", "7",
      "--config=--seed=1 x", "3", "--wallet-cli="]) :=
    .cons .stopOnFailure (.cons (.seed (.separate (plain_natText _))) (.cons (.config .attached)
      (.cons (.count 3) (.cons (.walletCli .attached) .nil))))
  have doubles : Doubles errandPieces (wordsOf ["--seed=8"]) :=
    .setting (List.mem_cons_of_mem _ List.mem_cons_self) rfl .attached
  exact ⟨reread.arranged _ _ arranged spelled, reread.doubled _ _ _ _ arranged spelled doubles⟩

end PaymentDrill.CommandLine
