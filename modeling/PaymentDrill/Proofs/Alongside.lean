import PaymentDrill.Proofs.Repetition

/-!
# Readings side by side

No step of a reading looks at what is settled about another switch. So two readings of a line that
does not name a switch stay side by side when the second has settled that switch already: they
come to the same complaint, or to the same invocation but for what the second had to begin with.
A setting in front of a line without it is therefore read first, and the line as it was.
-/
namespace PaymentDrill.CommandLine

open Text

variable {x q : Piece} {y : Switch} {i : Invocation} {p p' : Progress} {s : Setting}
  {v w : List UInt8} {ws line : List (List UInt8)}

/-- The piece that a setting with a value is. -/
def pieceOf (s : Setting) (v : List UInt8) : Except Halt Piece :=
  match s with
  | .config => if v = [] then complain (.missingValue s) else .ok (.config v)
  | .walletCli => (textOf v).map fun cs => .walletCli (String.ofList cs)
  | .seed => (numberOf .invalidSeed v).map .seed

/-- The piece that a flag is; two flags end the reading. -/
def pieceOfFlag : Flag → Except Halt Piece
  | .stopOnFailure => .ok .stopOnFailure
  | .checkBalance => .ok .checkBalance
  | .help => .error .help
  | .version => .error .version

lemma take_eq (s : Setting) (v : List UInt8) (i : Invocation) : take s v i =
    if i.has (.setting s) then complain (.repeated (.setting s))
    else (pieceOf s v).map fun q => q.put i := by
  cases s with
  | config =>
    rw [take, pieceOf, Invocation.has]
    split_ifs <;> rfl
  | walletCli =>
    simp only [take, pieceOf, Invocation.has]
    cases textOf v <;> rfl
  | seed =>
    simp only [take, pieceOf, Invocation.has]
    cases numberOf .invalidSeed v <;> rfl

lemma raise_eq (f : Flag) (i : Invocation) : raise f i =
    if i.has (.flag f) then complain (.repeated (.flag f))
    else (pieceOfFlag f).map fun q => q.put i := by
  cases f <;> rfl

lemma takeCount_eq (v : List UInt8) (i : Invocation) : takeCount v i =
    ((numberOf .invalidCount v).map Piece.count).map fun q => q.put i := by
  rw [takeCount]
  cases numberOf .invalidCount v <;> rfl

lemma settleThen_eq (p : Progress) (act : Invocation → Except Halt Invocation) :
    p.settleThen act = p.settle.bind fun i => (act i).bind fun i =>
      .ok ⟨i, .nothing, p.counted, p.onlyValues⟩ := by
  rw [Progress.settleThen]
  cases p.settle with
  | error h => rfl
  | ok i => cases act i <;> rfl

lemma readCount_eq (p : Progress) (w : List UInt8) : p.readCount w =
    if p.counted then complain (.unexpected (shownWord w))
    else p.settle.bind fun i => .ok ⟨i, .count w, true, p.onlyValues⟩ := by
  rw [Progress.readCount]
  cases p.settle <;> rfl

lemma switch?_of_pieceOf (h : pieceOf s v = .ok q) : q.switch? = some (.setting s) := by
  cases s with
  | config =>
    simp only [pieceOf] at h
    split_ifs at h
    · cases h
    · obtain rfl := Except.ok.inj h
      rfl
  | walletCli =>
    obtain ⟨cs, -, rfl⟩ := Json.map_eq_ok_iff.mp h
    rfl
  | seed =>
    obtain ⟨n, -, rfl⟩ := Json.map_eq_ok_iff.mp h
    rfl

lemma switch?_of_pieceOfFlag {f : Flag} (h : pieceOfFlag f = .ok q) :
    q.switch? = some (.flag f) := by
  cases f <;> cases h <;> rfl

/-- Two readings that come to the same end, or to the same result but for what is put into that of
the second; that of the first is free of it. -/
inductive Beside {α : Type} (free : α → Prop) (put : α → α) : Except Halt α → Except Halt α → Prop
  | halted (h : Halt) : Beside free put (.error h) (.error h)
  | read {a : α} (h : free a) : Beside free put (.ok a) (.ok (put a))

/-- What goes on alike from results that are side by side stays so. -/
lemma Beside.bind {α β : Type} {free : α → Prop} {put : α → α} {free' : β → Prop} {put' : β → β}
    {r r' : Except Halt α} {f f' : α → Except Halt β} (h : Beside free put r r')
    (hf : ∀ {a}, free a → Beside free' put' (f a) (f' (put a))) :
    Beside free' put' (r.bind f) (r'.bind f') := by
  cases h with
  | halted h => exact .halted h
  | read ha => exact hf ha

/-- Nothing is known of a switch. -/
def Invocation.Free (y : Switch) (i : Invocation) : Prop := i.has y = false

def Progress.Free (y : Switch) (p : Progress) : Prop :=
  p.settled.Free y ∧ p.pending.switch? ≠ some y

def Progress.put (x : Piece) (p : Progress) : Progress := { p with settled := x.put p.settled }

lemma beside_progress (hi : i.Free y) {pending : Pending} (hpending : pending.switch? ≠ some y)
    (counted onlyValues : Bool) :
    Beside (Progress.Free y) (Progress.put x) (.ok ⟨i, pending, counted, onlyValues⟩)
      (.ok ⟨x.put i, pending, counted, onlyValues⟩) :=
  .read ⟨hi, hpending⟩

section Beside

variable (hx : x.switch? = some y)

include hx

/-- A piece of another switch makes no difference between two invocations. -/
lemma beside_piece {r : Except Halt Piece} (hr : ∀ q, r = .ok q → q.switch? ≠ some y)
    (h : i.Free y) :
    Beside (Invocation.Free y) x.put (r.map fun q => q.put i) (r.map fun q => q.put (x.put i)) := by
  cases r with
  | error e => exact .halted e
  | ok q =>
    have hne : q.switch? ≠ some y := hr q rfl
    have hcomm : q.put (x.put i) = x.put (q.put i) :=
      Invocation.put_comm (by rw [hx]; exact hne.symm) i
    show Beside _ _ (.ok (q.put i)) (.ok (q.put (x.put i)))
    rw [hcomm]
    exact .read (by simpa [Invocation.Free, has_put, hne] using h)

lemma has_put_other {z : Switch} (hz : y ≠ z) (i : Invocation) : (x.put i).has z = i.has z := by
  simp [has_put, hx, hz]

lemma beside_take (hs : y ≠ .setting s) (v : List UInt8) (h : i.Free y) :
    Beside (Invocation.Free y) x.put (take s v i) (take s v (x.put i)) := by
  rw [take_eq, take_eq, has_put_other hx hs]
  split_ifs
  · exact .halted _
  · refine beside_piece hx (fun q hq => ?_) h
    rw [switch?_of_pieceOf hq]
    exact fun heq => hs (Option.some.inj heq).symm

lemma beside_raise {f : Flag} (hf : y ≠ .flag f) (h : i.Free y) :
    Beside (Invocation.Free y) x.put (raise f i) (raise f (x.put i)) := by
  rw [raise_eq, raise_eq, has_put_other hx hf]
  split_ifs
  · exact .halted _
  · refine beside_piece hx (fun q hq => ?_) h
    rw [switch?_of_pieceOfFlag hq]
    exact fun heq => hf (Option.some.inj heq).symm

lemma beside_takeCount (v : List UInt8) (h : i.Free y) :
    Beside (Invocation.Free y) x.put (takeCount v i) (takeCount v (x.put i)) := by
  rw [takeCount_eq, takeCount_eq]
  refine beside_piece hx (fun q hq => ?_) h
  obtain ⟨n, -, rfl⟩ := Json.map_eq_ok_iff.mp hq
  exact nofun

lemma beside_settle (h : p.Free y) :
    Beside (Invocation.Free y) x.put p.settle (p.put x).settle := by
  obtain ⟨settled, pending, counted, onlyValues⟩ := p
  obtain ⟨hsettled, hpending⟩ := h
  cases pending with
  | nothing => exact .read hsettled
  | setting s value =>
    cases value with
    | none => exact .halted _
    | some v => exact beside_take hx (fun heq => hpending (congrArg some heq.symm)) v hsettled
  | count v => exact beside_takeCount hx v hsettled

lemma beside_settleThen {act : Invocation → Except Halt Invocation} (h : p.Free y)
    (hact : ∀ {j}, j.Free y → Beside (Invocation.Free y) x.put (act j) (act (x.put j))) :
    Beside (Progress.Free y) (Progress.put x) (p.settleThen act) ((p.put x).settleThen act) := by
  rw [settleThen_eq, settleThen_eq]
  refine (beside_settle hx h).bind fun hj => (hact hj).bind fun hk => ?_
  exact beside_progress hk (by simp [Pending.switch?]) _ _

lemma beside_readCount (w : List UInt8) (h : p.Free y) :
    Beside (Progress.Free y) (Progress.put x) (p.readCount w) ((p.put x).readCount w) := by
  rw [readCount_eq, readCount_eq, show (p.put x).counted = p.counted from rfl]
  split_ifs
  · exact .halted _
  · refine (beside_settle hx h).bind fun hj => ?_
    exact beside_progress hj (by simp [Pending.switch?]) _ _

lemma beside_readShort (names : List UInt8) (h : p.Free y) :
    Beside (Progress.Free y) (Progress.put x) (p.readShort names) ((p.put x).readShort names) := by
  unfold Progress.readShort
  split
  · exact beside_settleThen hx h fun _ => .halted _
  · exact beside_settleThen hx h fun _ => .halted _
  · exact .halted _

lemma beside_readLong {name : List UInt8} (hname : switch? name ≠ some y)
    (value : Option (List UInt8)) (h : p.Free y) :
    Beside (Progress.Free y) (Progress.put x) (p.readLong name value)
      ((p.put x).readLong name value) := by
  unfold Progress.readLong
  cases hswitch : switch? name with
  | none => exact .halted _
  | some z =>
    have hne : y ≠ z := fun heq => hname (by rw [hswitch, heq])
    cases z with
    | flag f =>
      cases value with
      | none => exact beside_settleThen hx h (beside_raise hx hne)
      | some v => exact .halted _
    | setting s =>
      cases value with
      | some v => exact beside_settleThen hx h (beside_take hx hne v)
      | none =>
        exact (beside_settleThen hx h .read).bind fun hp =>
          beside_progress hp.1 (by simpa [Pending.switch?] using hne.symm) _ _

lemma beside_readValue (w : List UInt8) (h : p.Free y) :
    Beside (Progress.Free y) (Progress.put x) (p.readValue w) ((p.put x).readValue w) := by
  have hcount := beside_readCount hx w h
  obtain ⟨settled, pending, counted, onlyValues⟩ := p
  cases pending with
  | nothing => exact hcount
  | count v => exact hcount
  | setting s value =>
    cases value with
    | none =>
      have hpending : (Pending.setting s (some w)).switch? ≠ some y := h.2
      exact beside_progress h.1 hpending _ _
    | some v => exact hcount

/-- A word that does not name the switch is read alike. -/
theorem beside_step (h : p.Free y) (hw : p.onlyValues = true ∨ mentions y w = 0) :
    Beside (Progress.Free y) (Progress.put x) (p.step w) ((p.put x).step w) := by
  unfold Progress.step
  show Beside _ _ (if p.onlyValues then _ else _) (if p.onlyValues then _ else _)
  split_ifs with hvalues
  · exact beside_readCount hx w h
  · have hmention := hw.resolve_left hvalues
    unfold mentions at hmention
    cases hword : Word.ofBytes w with
    | onlyValues => exact beside_progress h.1 h.2 _ _
    | long name value =>
      refine beside_readLong hx (fun heq => ?_) value h
      simp [hword, heq] at hmention
    | short names => exact beside_readShort hx names h
    | value v => exact beside_readValue hx v h

end Beside

/-- No word names the switch; behind the mark for values, no word is a name. -/
def Lacks (y : Switch) (line : List (List UInt8)) : Prop :=
  ∀ w ∈ line.takeWhile (fun w => Word.ofBytes w != .onlyValues), mentions y w = 0

instance (y : Switch) (line : List (List UInt8)) : Decidable (Lacks y line) := by
  unfold Lacks
  infer_instance

lemma lacks_cons (h : Lacks y (w :: ws)) :
    Word.ofBytes w = .onlyValues ∨ mentions y w = 0 ∧ Lacks y ws := by
  by_cases hw : Word.ofBytes w = .onlyValues
  · exact .inl hw
  · right
    rw [Lacks, List.takeWhile_cons_of_pos (by simpa using hw), List.forall_mem_cons] at h
    exact h

lemma onlyValues_of_readCount (h : p.readCount w = .ok p') : p'.onlyValues = p.onlyValues := by
  unfold Progress.readCount at h
  split_ifs at h
  · cases h
  · split at h
    · cases h
    · obtain rfl := Except.ok.inj h
      rfl

/-- Behind the mark, everything is a value to the end. -/
lemma onlyValues_of_step (hw : p.onlyValues = true ∨ Word.ofBytes w = .onlyValues)
    (h : p.step w = .ok p') : p'.onlyValues = true := by
  unfold Progress.step at h
  split_ifs at h with hvalues
  · exact (onlyValues_of_readCount h).trans hvalues
  · rw [hw.resolve_left hvalues] at h
    obtain rfl := Except.ok.inj h
    rfl

/-- By induction on the words; each step leaves the first reading free of the switch. -/
theorem beside_readAll (hx : x.switch? = some y) (h : p.Free y)
    (hline : p.onlyValues = true ∨ Lacks y ws) :
    Beside (Invocation.Free y) x.put (p.readAll ws) ((p.put x).readAll ws) := by
  induction ws generalizing p with
  | nil => exact beside_settle hx h
  | cons w ws ih =>
    have hwords : (p.onlyValues = true ∨ Word.ofBytes w = .onlyValues) ∨
        mentions y w = 0 ∧ Lacks y ws := by
      rcases hline with hvalues | hlacks
      · exact .inl (.inl hvalues)
      · exact (lacks_cons hlacks).imp_left .inr
    have hword : p.onlyValues = true ∨ mentions y w = 0 := by
      rcases hwords with (hvalues | hmark) | ⟨hmention, -⟩
      · exact .inl hvalues
      · exact .inr (by simp [mentions, hmark])
      · exact .inr hmention
    have hstep := beside_step hx h hword
    unfold Progress.readAll
    generalize hr : p.step w = r, (p.put x).step w = r' at hstep
    cases hstep with
    | halted e => exact .halted e
    | read hfree =>
      refine ih hfree (hwords.imp (fun hvalues => ?_) And.right)
      exact onlyValues_of_step hvalues hr

lemma free_start (s : Setting) : Progress.start.Free (.setting s) := by
  constructor
  · cases s <;> rfl
  · exact nofun

/-- What is read without a setting says nothing of it. -/
lemma free_of_read (hline : Lacks (.setting s) line) (h : read line = .ok i) :
    i.Free (.setting s) := by
  obtain ⟨x, hx⟩ : ∃ x : Piece, x.switch? = some (.setting s) := by
    cases s with
    | config => exact ⟨.config [], rfl⟩
    | walletCli => exact ⟨.walletCli "", rfl⟩
    | seed => exact ⟨.seed 0, rfl⟩
  have hbeside := beside_readAll hx (free_start s) (.inr hline)
  rw [← read, h] at hbeside
  generalize Progress.readAll _ line = r at hbeside
  cases hbeside with
  | read hfree => exact hfree

lemma step_start (s : Setting) (v : List UInt8) :
    Progress.start.step (Switch.attached (.setting s) v) =
      (pieceOf s v).map fun q => Progress.start.put q := by
  rw [step_attached rfl, Progress.settleThen]
  show (take s v Invocation.default).map _ = _
  rw [take_eq, show Invocation.default.has (.setting s) = false from (free_start s).1]
  cases pieceOf s v <;> rfl

/-- A setting with a value that it does not take. -/
lemma read_attached_error {h : Halt} (hq : pieceOf s v = .error h) (line : List (List UInt8)) :
    read (Switch.attached (.setting s) v :: line) = .error h := by
  rw [read, Progress.readAll, step_start, hq]
  rfl

/-- A setting in front of a line without it is read first, and the line is read as before. -/
theorem beside_read (hq : pieceOf s v = .ok q) (hline : Lacks (.setting s) line) :
    Beside (Invocation.Free (.setting s)) q.put (read line)
      (read (Switch.attached (.setting s) v :: line)) := by
  have hfirst := step_start s v
  rw [hq] at hfirst
  rw [read, read, readAll_cons hfirst]
  exact beside_readAll (switch?_of_pieceOf hq) (free_start s) (.inr hline)

end PaymentDrill.CommandLine
