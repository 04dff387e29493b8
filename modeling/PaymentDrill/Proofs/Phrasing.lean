import PaymentDrill.CommandLine.Invocation
import PaymentDrill.Proofs.Encoding
import PaymentDrill.Proofs.Literals
import PaymentDrill.Proofs.Rereading

/-!
# Phrasing an invocation

The command lines that say what an invocation is. Its pieces stand in any order, a value is
attached to its setting or is a word of its own, and a count that goes without saying may be
left out. Such a line is read as the invocation: each piece fits into what has been read in
front of it, and leaves room for those behind it.
-/
namespace PaymentDrill

namespace Numeral

lemma ofDigits_eq_ok {n : Nat} {ds : List Char} (hdigits : ∀ c ∈ ds, c.isDigit = true)
    (h : Nat.ofDigitChars 10 ds n < 2 ^ 64) :
    ofDigits n ds = .ok (UInt64.ofNat (Nat.ofDigitChars 10 ds n)) := by
  induction ds generalizing n with
  | nil => rfl
  | cons c ds ih =>
    rw [List.forall_mem_cons] at hdigits
    rw [Json.ofDigitChars_digit] at h ⊢
    have hfit : n * 10 + (c.toNat - '0'.toNat) < Nat.pow 2 64 :=
      (Json.le_ofDigitChars _ ds).trans_lt h
    rw [ofDigits, if_neg (by simp [hdigits.1])]
    dsimp only
    rw [if_neg (by omega)]
    exact ih hdigits.2 h

lemma natText_ne_nil (n : Nat) : natText n ≠ [] := by
  intro h
  have hvalue : Nat.ofDigitChars 10 (natText n) 0 = n := Nat.ofDigitChars_ten_toDigits
  rw [h] at hvalue
  subst hvalue
  cases h

/-- The digits of a number are read as that number. -/
theorem ofText_natText (n : UInt64) : ofText (natText n.toNat) = .ok n := by
  have hvalue : Nat.ofDigitChars 10 (natText n.toNat) 0 = n.toNat := Nat.ofDigitChars_ten_toDigits
  have hdigits : ∀ c ∈ natText n.toNat, c.isDigit = true := fun c hc => Decimal.isDigit_natText hc
  have hread := ofDigits_eq_ok (n := 0) hdigits (by rw [hvalue]; exact n.toNat_lt)
  rw [hvalue, UInt64.ofNat_toNat] at hread
  have hplus : '+' ∉ natText n.toNat := fun h => absurd (hdigits '+' h) (by decide)
  unfold ofText
  split
  · rename_i h
    exact absurd h (natText_ne_nil _)
  · rename_i h
    exact absurd (h ▸ List.mem_singleton_self '+') hplus
  · rename_i ds _ h
    exact absurd (h ▸ List.mem_cons_self) hplus
  · exact hread

end Numeral

namespace CommandLine

open Text

/-- The word of a switch alone. -/
def Switch.word (s : Switch) : List UInt8 := dash :: dash :: Utf8.encode s.name.toList

/-- The word of a switch with a value attached. -/
def Switch.attached (s : Switch) (value : List UInt8) : List UInt8 :=
  s.word ++ equalsSign :: value

lemma name_shape (s : Switch) : equalsSign ∉ Utf8.encode s.name.toList ∧
    Utf8.encode s.name.toList ≠ [] ∧ switch? (Utf8.encode s.name.toList) = some s := by
  cases s with
  | setting s => cases s <;> decide
  | flag f => cases f <;> decide

lemma all_ne_equalsSign {bytes : List UInt8} (h : equalsSign ∉ bytes) :
    ∀ b ∈ bytes, (b != equalsSign) = true := by
  intro b hb
  rw [bne_iff_ne]
  exact ne_of_mem_of_not_mem hb h

lemma ofBytes_word (s : Switch) : Word.ofBytes s.word = .long (Utf8.encode s.name.toList) none := by
  obtain ⟨hequals, hne, -⟩ := name_shape s
  rw [Switch.word, Word.ofBytes, if_neg (by simp), if_neg (by simp), if_neg hne, Word.ofLong,
    List.dropWhile_eq_nil_iff.mpr (all_ne_equalsSign hequals)]

lemma ofBytes_attached (s : Switch) (value : List UInt8) : Word.ofBytes (s.attached value) =
    .long (Utf8.encode s.name.toList) (some value) := by
  obtain ⟨hequals, hne, -⟩ := name_shape s
  have hall := all_ne_equalsSign hequals
  rw [Switch.attached, Switch.word, List.cons_append, List.cons_append, Word.ofBytes,
    if_neg (by simp), if_neg (by simp), if_neg (by simp), Word.ofLong,
    List.dropWhile_append_of_pos hall, List.takeWhile_append_of_pos hall,
    List.dropWhile_cons_of_neg (by simp), List.takeWhile_cons_of_neg (by simp), List.append_nil]

/-- A word that can follow a setting as its value. -/
structure Plain (w : List UInt8) : Prop where
  nonempty : w ≠ []
  undashed : w.head? ≠ some dash

lemma Plain.ofBytes {w : List UInt8} (h : Plain w) : Word.ofBytes w = .value w := by
  obtain ⟨hne, hdash⟩ := h
  unfold Word.ofBytes
  split
  · rfl
  · rfl
  · rw [if_pos]
    intro ha
    exact hdash (congrArg some ha)

/-- A number is written with a digit in front. -/
lemma exists_digit (n : Nat) : ∃ b bs, Utf8.encode (natText n) = b :: bs ∧
    48 ≤ b.toNat ∧ b.toNat ≤ 57 := by
  obtain ⟨c, cs, hcs⟩ := List.exists_cons_of_ne_nil (Numeral.natText_ne_nil n)
  have hdigit : c.isDigit = true := Decimal.isDigit_natText (hcs ▸ List.mem_cons_self)
  have hrange : 48 ≤ c.toNat ∧ c.toNat ≤ 57 := by
    rw [Char.isDigit, Bool.and_eq_true, decide_eq_true_eq, decide_eq_true_eq] at hdigit
    exact ⟨UInt32.le_iff_toNat_le.mp hdigit.1, UInt32.le_iff_toNat_le.mp hdigit.2⟩
  have hencode : String.utf8EncodeChar c = [UInt8.ofNat c.toNat] := by
    rw [← Utf8.encode_one (by omega), Char.ofNat_toNat]
  have hsmall : c.toNat < 256 := by omega
  refine ⟨UInt8.ofNat c.toNat, Utf8.encode cs, ?_, ?_⟩
  · rw [hcs, Utf8.encode, List.flatMap_cons, hencode, List.singleton_append, Utf8.encode]
  · have hbyte : (UInt8.ofNat c.toNat).toNat = c.toNat := UInt8.toNat_ofNat_of_lt hsmall
    omega

lemma plain_natText (n : Nat) : Plain (Utf8.encode (natText n)) := by
  obtain ⟨b, bs, hbytes, hlow, -⟩ := exists_digit n
  rw [hbytes]
  refine ⟨List.cons_ne_nil _ _, fun hdash => ?_⟩
  have hbyte : b.toNat = 45 := congrArg UInt8.toNat (Option.some.inj hdash)
  omega

/-- A part of an invocation, as it is written on a command line. -/
inductive Piece where
  | count (n : UInt64)
  | config (path : List UInt8)
  | walletCli (name : String)
  | seed (n : UInt64)
  | stopOnFailure
  | checkBalance
  deriving DecidableEq

namespace Piece

/-- The switch that the piece is written with, if it is not the count. -/
def switch? : Piece → Option Switch
  | count _ => none
  | config _ => some (.setting .config)
  | walletCli _ => some (.setting .walletCli)
  | seed _ => some (.setting .seed)
  | stopOnFailure => some (.flag .stopOnFailure)
  | checkBalance => some (.flag .checkBalance)

/-- The invocation with the piece in it. -/
def put (q : Piece) (i : Invocation) : Invocation :=
  match q with
  | count n => { i with count := n }
  | config path => { i with config := some path }
  | walletCli name => { i with walletCli := some name }
  | seed n => { i with seed := some n }
  | stopOnFailure => { i with stopOnFailure := true }
  | checkBalance => { i with checkBalance := true }

end Piece

/-- The ways to write the value of a setting: attached to it, or as a word of its own. -/
inductive Given (s : Setting) (value : List UInt8) : List (List UInt8) → Prop
  | attached : Given s value [Switch.attached (.setting s) value]
  | separate (plain : Plain value) : Given s value [Switch.word (.setting s), value]

/-- The ways to write a piece. -/
inductive Written : Piece → List (List UInt8) → Prop
  | count (n : UInt64) : Written (.count n) [Utf8.encode (natText n.toNat)]
  | config {path : List UInt8} {ws : List (List UInt8)} (h : Given .config path ws) :
      Written (.config path) ws
  | walletCli {name : String} {ws : List (List UInt8)}
      (h : Given .walletCli (Utf8.encode name.toList) ws) : Written (.walletCli name) ws
  | seed {n : UInt64} {ws : List (List UInt8)}
      (h : Given .seed (Utf8.encode (natText n.toNat)) ws) : Written (.seed n) ws
  | stopOnFailure : Written .stopOnFailure [Switch.word (.flag .stopOnFailure)]
  | checkBalance : Written .checkBalance [Switch.word (.flag .checkBalance)]

/-- The words of pieces, one after the other. -/
inductive Spelled : List Piece → List (List UInt8) → Prop
  | nil : Spelled [] []
  | cons {q : Piece} {ps : List Piece} {ws line : List (List UInt8)} (h : Written q ws)
      (rest : Spelled ps line) : Spelled (q :: ps) (ws ++ line)

/-- Between two pieces: nothing waits for a value, and what has been read makes an invocation. -/
structure Stands (p : Progress) (counted : Bool) (j : Invocation) : Prop where
  settle : p.settle = .ok j
  counted : p.counted = counted
  unmarked : p.onlyValues = false
  idle : ∀ s, p.pending ≠ .setting s none

/-- There is room for the piece in an invocation. -/
def Piece.Fits (counted : Bool) (j : Invocation) : Piece → Prop
  | count _ => counted = false
  | config path => j.config = none ∧ path ≠ []
  | walletCli _ => j.walletCli = none
  | seed _ => j.seed = none
  | stopOnFailure => j.stopOnFailure = false
  | checkBalance => j.checkBalance = false

variable {p : Progress} {counted : Bool} {j k : Invocation} {s : Setting} {v w : List UInt8}
  {ws line : List (List UInt8)}

lemma readAll_cons {p' : Progress} (h : p.step w = .ok p') (ws : List (List UInt8)) :
    p.readAll (w :: ws) = p'.readAll ws := by
  rw [Progress.readAll, h]

section Steps

variable (f : Flag) (h : p.onlyValues = false)

include h

lemma step_plain (plain : Plain w) : p.step w = p.readValue w := by
  rw [Progress.step, if_neg (by simp [h]), plain.ofBytes]

lemma step_attached (v : List UInt8) :
    p.step (Switch.attached (.setting s) v) = p.settleThen (take s v) := by
  rw [Progress.step, if_neg (by simp [h]), ofBytes_attached]
  dsimp only
  unfold Progress.readLong
  rw [(name_shape (.setting s)).2.2]

lemma step_setting : p.step (Switch.word (.setting s)) =
    (p.settleThen .ok).map fun p => { p with pending := .setting s none } := by
  rw [Progress.step, if_neg (by simp [h]), ofBytes_word]
  dsimp only
  unfold Progress.readLong
  rw [(name_shape (.setting s)).2.2]

lemma step_flag : p.step (Switch.word (.flag f)) = p.settleThen (raise f) := by
  rw [Progress.step, if_neg (by simp [h]), ofBytes_word]
  dsimp only
  unfold Progress.readLong
  rw [(name_shape (.flag f)).2.2]

end Steps

lemma Stands.settleThen (h : Stands p counted j) {act : Invocation → Except Halt Invocation}
    (hk : act j = .ok k) :
    p.settleThen act = .ok { p with settled := k, pending := .nothing } := by
  rw [Progress.settleThen, h.settle]
  dsimp only
  rw [hk]
  rfl

/-- After a switch that is settled at its word, nothing is pending. -/
lemma Stands.rest (h : Stands p counted j) (k : Invocation) :
    Stands { p with settled := k, pending := .nothing } counted k :=
  ⟨rfl, h.counted, h.unmarked, fun _ hpending => Pending.noConfusion hpending⟩

/-- A setting with its value, however it is given. -/
lemma stands_given (h : Stands p counted j) (hk : take s v j = .ok k) (hg : Given s v ws) :
    ∃ p', Stands p' counted k ∧ ∀ rest, p.readAll (ws ++ rest) = p'.readAll rest := by
  cases hg with
  | attached =>
    have hstep := (step_attached h.unmarked v).trans (h.settleThen hk)
    exact ⟨_, h.rest k, fun rest => readAll_cons hstep rest⟩
  | separate plain =>
    have hname : p.step (Switch.word (.setting s)) =
        .ok { p with settled := j, pending := .setting s none } := by
      rw [step_setting h.unmarked, h.settleThen rfl]
      rfl
    have hvalue : Progress.step { p with settled := j, pending := .setting s none } v =
        .ok { p with settled := j, pending := .setting s (some v) } := by
      rw [step_plain (p := { p with settled := j, pending := .setting s none }) h.unmarked plain]
      rfl
    refine ⟨{ p with settled := j, pending := .setting s (some v) },
      ⟨hk, h.counted, h.unmarked, ?_⟩, fun rest => ?_⟩
    · intro s' hpending
      cases hpending
    · exact (readAll_cons hname _).trans (readAll_cons hvalue rest)

lemma stands_flag {f : Flag} (h : Stands p counted j) (hk : raise f j = .ok k) :
    ∃ p', Stands p' counted k ∧
      ∀ rest, p.readAll ([Switch.word (.flag f)] ++ rest) = p'.readAll rest := by
  have hstep := (step_flag f h.unmarked).trans (h.settleThen hk)
  exact ⟨_, h.rest k, fun rest => readAll_cons hstep rest⟩

lemma numberOf_natText (complaint : String → NumeralFault → Complaint) (n : UInt64) :
    numberOf complaint (Utf8.encode (natText n.toNat)) = .ok n := by
  rw [numberOf, textOf, Utf8.decode?_eq_some_iff.mpr rfl]
  dsimp only
  rw [Numeral.ofText_natText]

lemma stands_count (h : Stands p false j) (n : UInt64) :
    ∃ p', Stands p' true (Piece.put (.count n) j) ∧
      ∀ rest, p.readAll ([Utf8.encode (natText n.toNat)] ++ rest) = p'.readAll rest := by
  set w := Utf8.encode (natText n.toNat) with hw
  have hstep : p.step w = .ok { p with settled := j, pending := .count w, counted := true } := by
    rw [step_plain h.unmarked (plain_natText _), Progress.readValue]
    split
    · rename_i s hpending
      exact absurd hpending (h.idle s)
    · rw [Progress.readCount, if_neg (by simp [h.counted]), h.settle]
  refine ⟨{ p with settled := j, pending := .count w, counted := true },
    ⟨?_, rfl, h.unmarked, ?_⟩, fun rest => readAll_cons hstep rest⟩
  · rw [Progress.settle]
    dsimp only
    rw [takeCount, hw, numberOf_natText]
    rfl
  · intro s hpending
    cases hpending

/-- A piece that fits is read and put into what has been read so far. -/
lemma stands_written {q : Piece} (h : Stands p counted j) (fits : q.Fits counted j)
    (hq : Written q ws) : ∃ p', Stands p' (counted || q.switch?.isNone) (q.put j) ∧
      ∀ rest, p.readAll (ws ++ rest) = p'.readAll rest := by
  cases hq with
  | count n =>
    obtain rfl : counted = false := fits
    exact stands_count h n
  | @config path ws hg =>
    obtain ⟨habsent, hne⟩ := fits
    rw [Piece.switch?, Option.isNone_some, Bool.or_false]
    exact stands_given h (by rw [take, if_neg (by simp [habsent]), if_neg hne]; rfl) hg
  | @walletCli name ws hg =>
    rw [Piece.switch?, Option.isNone_some, Bool.or_false]
    refine stands_given h ?_ hg
    rw [take, if_neg (by simp [show j.walletCli = none from fits]), textOf,
      Utf8.decode?_eq_some_iff.mpr rfl]
    dsimp only [Except.map]
    rw [String.ofList_toList]
    rfl
  | @seed n ws hg =>
    rw [Piece.switch?, Option.isNone_some, Bool.or_false]
    refine stands_given h ?_ hg
    rw [take, if_neg (by simp [show j.seed = none from fits]), numberOf_natText]
    rfl
  | stopOnFailure =>
    rw [Piece.switch?, Option.isNone_some, Bool.or_false]
    refine stands_flag h ?_
    rw [raise, if_neg (by simp [show j.stopOnFailure = false from fits])]
    rfl
  | checkBalance =>
    rw [Piece.switch?, Option.isNone_some, Bool.or_false]
    refine stands_flag h ?_
    rw [raise, if_neg (by simp [show j.checkBalance = false from fits])]
    rfl

lemma Piece.Fits.put {q x : Piece} (h : q.Fits counted j) (hne : x.switch? ≠ q.switch?) :
    q.Fits (counted || x.switch?.isNone) (x.put j) := by
  cases q <;> cases x <;> simp_all [Piece.Fits, Piece.put, Piece.switch?]

/-- By induction on the pieces; the one that is read leaves room for the others. -/
theorem readAll_spelled {ps : List Piece} (hps : Spelled ps line) (h : Stands p counted j)
    (fits : ∀ q ∈ ps, q.Fits counted j) (distinct : (ps.map Piece.switch?).Nodup) :
    p.readAll line = .ok (ps.foldl (fun i q => q.put i) j) := by
  induction hps generalizing p counted j with
  | nil => exact h.settle
  | cons hq rest ih =>
    rw [List.forall_mem_cons] at fits
    rw [List.map_cons, List.nodup_cons] at distinct
    obtain ⟨p', h', hread⟩ := stands_written h fits.1 hq
    rw [hread, List.foldl_cons]
    refine ih h' (fun x hx => ?_) distinct.2
    refine (fits.2 x hx).put fun heq => distinct.1 ?_
    rw [heq]
    exact List.mem_map_of_mem hx

namespace Invocation

variable {i : Invocation} {ps : List Piece}

/-- The pieces of an invocation, in the order of its fields. -/
def pieces (i : Invocation) : List Piece :=
  .count i.count :: (i.config.toList.map .config ++ i.walletCli.toList.map .walletCli ++
    i.seed.toList.map .seed ++ (if i.stopOnFailure then [.stopOnFailure] else []) ++
      if i.checkBalance then [.checkBalance] else [])

/-- The pieces in some order; the count may be left out if it is what it is without being said. -/
def Arranged (i : Invocation) (ps : List Piece) : Prop :=
  ps.Perm i.pieces ∨ i.count = defaultCount ∧ (.count i.count :: ps).Perm i.pieces

lemma foldl_pieces (i : Invocation) : i.pieces.foldl (fun j q => q.put j) default = i := by
  obtain ⟨n, _ | path, _ | name, _ | seed, _ | _, _ | _⟩ := i <;> rfl

lemma distinct_pieces (i : Invocation) : (i.pieces.map Piece.switch?).Nodup := by
  obtain ⟨n, _ | path, _ | name, _ | seed, _ | _, _ | _⟩ := i <;>
    simp [pieces, Piece.switch?]

lemma fits_pieces (hpath : i.config ≠ some []) : ∀ q ∈ i.pieces, q.Fits false default := by
  intro q hq
  cases q with
  | config path =>
    have hconfig : i.config = some path := by simpa [pieces] using hq
    refine ⟨rfl, fun hnil => hpath ?_⟩
    rw [hconfig, hnil]
  | _ => rfl

lemma put_comm {x y : Piece} (h : x.switch? ≠ y.switch?) (j : Invocation) :
    y.put (x.put j) = x.put (y.put j) := by
  cases x <;> cases y <;> first | rfl | exact absurd rfl h

lemma foldl_perm {qs : List Piece} (h : qs.Perm i.pieces) (j : Invocation) :
    qs.foldl (fun j q => q.put j) j = i.pieces.foldl (fun j q => q.put j) j := by
  refine h.foldl_eq' (fun x hx y hy j => ?_) j
  by_cases hxy : x.switch? = y.switch?
  · have heq : x = y := List.inj_on_of_nodup_map (i.distinct_pieces) (h.subset hx) (h.subset hy) hxy
    rw [heq]
  · exact put_comm hxy j

/-- Pieces in any order are read as the invocation that they are of. -/
theorem read_of_arranged (hpath : i.config ≠ some []) (h : i.Arranged ps) (hl : Spelled ps line) :
    read line = .ok i := by
  have start : Stands .start false default := ⟨rfl, rfl, rfl, fun _ hpending => nomatch hpending⟩
  cases h with
  | inl h =>
    have fits : ∀ q ∈ ps, q.Fits false default := fun q hq => fits_pieces hpath q (h.subset hq)
    have distinct := (h.map Piece.switch?).nodup_iff.mpr i.distinct_pieces
    rw [read, readAll_spelled hl start fits distinct, foldl_perm h, foldl_pieces]
  | inr h =>
    obtain ⟨hcount, h⟩ := h
    have fits : ∀ q ∈ ps, q.Fits false default := fun q hq =>
      fits_pieces hpath q (h.subset (List.mem_cons_of_mem _ hq))
    have distinct := (h.map Piece.switch?).nodup_iff.mpr i.distinct_pieces
    have hfold := foldl_perm h default
    have hput : Piece.put (.count i.count) default = default := by
      rw [hcount]
      rfl
    rw [foldl_pieces, List.foldl_cons, hput] at hfold
    rw [List.map_cons, List.nodup_cons] at distinct
    rw [read, readAll_spelled hl start fits distinct.2, hfold]

end Invocation

end CommandLine

end PaymentDrill
