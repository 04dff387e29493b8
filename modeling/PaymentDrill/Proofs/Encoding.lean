import Mathlib.Tactic.Lemma
import Mathlib.Tactic.SplitIfs
import PaymentDrill.Text.Utf8

/-!
# Encoded text

The decoder against the encoding of one character: a piece is a character exactly if
that character's bytes stand there, so encoded text decodes to itself. Where no
character stands, the broken piece is the longest beginning of one, or a single byte:
repair substitutes maximal subparts.
-/
namespace PaymentDrill.Text.Utf8

variable {b low high : UInt8} {bs rest r : List UInt8} {c : Char} {m n k code : Nat}

/-- What a leading byte that is a character by itself stands for. -/
def one (n : Nat) : Lead := ⟨0, 0x80, 0xBF, n⟩

def two (n : Nat) : Lead := ⟨1, 0x80, 0xBF, n - 0xC0⟩

/-- No sequence is longer than needed, and none is a surrogate. -/
def three (n : Nat) : Lead :=
  ⟨2, if n = 0xE0 then 0xA0 else 0x80, if n = 0xED then 0x9F else 0xBF, n - 0xE0⟩

/-- No sequence is longer than needed, and none is past the last code point. -/
def four (n : Nat) : Lead :=
  ⟨3, if n = 0xF0 then 0x90 else 0x80, if n = 0xF4 then 0x8F else 0xBF, n - 0xF0⟩

/-- The leading bytes, by the length of the sequence. -/
inductive Leads : Nat → Lead → Prop
  | one {n : Nat} (h : n < 0x80) : Leads n (one n)
  | two {n : Nat} (h : 0xC2 ≤ n) (h' : n < 0xE0) : Leads n (two n)
  | three {n : Nat} (h : 0xE0 ≤ n) (h' : n < 0xF0) : Leads n (three n)
  | four {n : Nat} (h : 0xF0 ≤ n) (h' : n < 0xF5) : Leads n (four n)

lemma lead?_of_leads {l : Lead} (h : Leads b.toNat l) : lead? b = some l := by
  unfold lead?
  generalize b.toNat = n at h ⊢
  dsimp only
  cases h with
  | one h => rw [if_pos h, one]
  | two h h' => rw [if_neg (by omega), if_neg (by omega), if_pos h', two]
  | three h h' =>
    rw [if_neg (by omega), if_neg (by omega), if_neg (by omega), three]
    by_cases hfirst : n = 0xE0
    · subst hfirst
      rfl
    by_cases hlast : n = 0xED
    · subst hlast
      rfl
    rw [if_neg hfirst, if_neg hlast, if_pos h', if_neg hfirst, if_neg hlast]
  | four h h' =>
    rw [if_neg (by omega), if_neg (by omega), if_neg (by omega), if_neg (by omega),
      if_neg (by omega), if_neg (by omega), four]
    by_cases hfirst : n = 0xF0
    · subst hfirst
      rfl
    by_cases hlast : n = 0xF4
    · subst hlast
      rfl
    rw [if_neg hfirst, if_pos (by omega), if_neg hfirst, if_neg hlast]

lemma lead?_eq_none (h : (0x80 ≤ b.toNat ∧ b.toNat < 0xC2) ∨ 0xF5 ≤ b.toNat) :
    lead? b = none := by
  unfold lead?
  generalize b.toNat = n at h ⊢
  dsimp only
  rw [if_neg (by omega)]
  by_cases hlow : n < 0xC2
  · rw [if_pos hlow]
  · rw [if_neg hlow, if_neg (by omega), if_neg (by omega), if_neg (by omega), if_neg (by omega),
      if_neg (by omega), if_neg (by omega), if_neg (by omega)]

/-- Every byte leads a character, or is a tail or worse. -/
lemma leads_or (n : Nat) : (∃ l, Leads n l) ∨ (0x80 ≤ n ∧ n < 0xC2) ∨ 0xF5 ≤ n := by
  by_cases h1 : n < 0x80
  · exact .inl ⟨_, .one h1⟩
  by_cases h2 : 0xC2 ≤ n ∧ n < 0xE0
  · exact .inl ⟨_, .two h2.1 h2.2⟩
  by_cases h3 : 0xE0 ≤ n ∧ n < 0xF0
  · exact .inl ⟨_, .three h3.1 h3.2⟩
  by_cases h4 : 0xF0 ≤ n ∧ n < 0xF5
  · exact .inl ⟨_, .four h4.1 h4.2⟩
  · omega

lemma lead?_eq_some_iff {l : Lead} : lead? b = some l ↔ Leads b.toNat l := by
  constructor
  · intro h
    rcases leads_or b.toNat with ⟨l', hl'⟩ | hnone
    · obtain rfl := Option.some.inj (h.symm.trans (lead?_of_leads hl'))
      exact hl'
    · rw [lead?_eq_none hnone] at h
      cases h
  · exact lead?_of_leads

lemma toNat_edge (n k : Nat) (x y : UInt8) :
    (n = k ∧ (if n = k then x else y).toNat = x.toNat) ∨
      (n ≠ k ∧ (if n = k then x else y).toNat = y.toNat) := by
  by_cases h : n = k
  · exact .inl ⟨h, by rw [if_pos h]⟩
  · exact .inr ⟨h, by rw [if_neg h]⟩

lemma three_low (n : Nat) : (n = 0xE0 ∧ (three n).low.toNat = 0xA0) ∨
    (n ≠ 0xE0 ∧ (three n).low.toNat = 0x80) :=
  toNat_edge n 0xE0 0xA0 0x80

lemma three_high (n : Nat) : (n = 0xED ∧ (three n).high.toNat = 0x9F) ∨
    (n ≠ 0xED ∧ (three n).high.toNat = 0xBF) :=
  toNat_edge n 0xED 0x9F 0xBF

lemma four_low (n : Nat) : (n = 0xF0 ∧ (four n).low.toNat = 0x90) ∨
    (n ≠ 0xF0 ∧ (four n).low.toNat = 0x80) :=
  toNat_edge n 0xF0 0x90 0x80

lemma four_high (n : Nat) : (n = 0xF4 ∧ (four n).high.toNat = 0x8F) ∨
    (n ≠ 0xF4 ∧ (four n).high.toNat = 0xBF) :=
  toNat_edge n 0xF4 0x8F 0xBF

lemma toNat_ofNat_of_isValidChar (h : n.isValidChar) : (Char.ofNat n).toNat = n := by
  rw [Char.ofNat, dif_pos h]
  rfl

lemma encode_one (h : n < 0x80) : String.utf8EncodeChar (Char.ofNat n) = [UInt8.ofNat n] := by
  have hn : (Char.ofNat n).val.toNat = n := toNat_ofNat_of_isValidChar (.inl (by omega))
  simp only [String.utf8EncodeChar, hn]
  rw [if_pos (by omega)]

lemma encode_two (h : 0x80 ≤ n) (h' : n < 0x800) : String.utf8EncodeChar (Char.ofNat n) =
    [UInt8.ofNat (n / 64 + 0xC0), UInt8.ofNat (n % 64 + 0x80)] := by
  have hn : (Char.ofNat n).val.toNat = n := toNat_ofNat_of_isValidChar (.inl (by omega))
  have hlead : n / 64 % 32 = n / 64 := by omega
  simp only [String.utf8EncodeChar, hn]
  rw [if_neg (by omega), if_pos (by omega), hlead]

lemma encode_three (h : 0x800 ≤ n) (h' : n < 0x10000) (hn : n.isValidChar) :
    String.utf8EncodeChar (Char.ofNat n) = [UInt8.ofNat (n / 4096 + 0xE0),
      UInt8.ofNat (n / 64 % 64 + 0x80), UInt8.ofNat (n % 64 + 0x80)] := by
  have hn : (Char.ofNat n).val.toNat = n := toNat_ofNat_of_isValidChar hn
  have hlead : n / 4096 % 16 = n / 4096 := by omega
  simp only [String.utf8EncodeChar, hn]
  rw [if_neg (by omega), if_neg (by omega), if_pos (by omega), hlead]

lemma encode_four (h : 0x10000 ≤ n) (h' : n < 0x110000) :
    String.utf8EncodeChar (Char.ofNat n) = [UInt8.ofNat (n / 262144 + 0xF0),
      UInt8.ofNat (n / 4096 % 64 + 0x80), UInt8.ofNat (n / 64 % 64 + 0x80),
        UInt8.ofNat (n % 64 + 0x80)] := by
  have hn : (Char.ofNat n).val.toNat = n := toNat_ofNat_of_isValidChar (.inr (by omega))
  have hlead : n / 262144 % 8 = n / 262144 := by omega
  simp only [String.utf8EncodeChar, hn]
  rw [if_neg (by omega), if_neg (by omega), if_neg (by omega), hlead]

lemma takeTails_cons (h : low.toNat ≤ b.toNat) (h' : b.toNat ≤ high.toNat) (k code : Nat)
    (bs : List UInt8) : takeTails (k + 1) low high code (b :: bs) =
      takeTails k 0x80 0xBF (code * 64 + (b.toNat - 0x80)) bs := by
  rw [takeTails, if_pos ⟨UInt8.le_iff_toNat_le.mpr h, UInt8.le_iff_toNat_le.mpr h'⟩]

lemma exists_of_takeTails (h : takeTails (k + 1) low high code bs = (some n, r)) :
    ∃ b rest, bs = b :: rest ∧ low.toNat ≤ b.toNat ∧ b.toNat ≤ high.toNat ∧
      takeTails k 0x80 0xBF (code * 64 + (b.toNat - 0x80)) rest = (some n, r) := by
  cases bs with
  | nil => cases h
  | cons b rest =>
    rw [takeTails] at h
    split_ifs at h with hb
    · exact ⟨b, rest, rfl, UInt8.le_iff_toNat_le.mp hb.1, UInt8.le_iff_toNat_le.mp hb.2, h⟩
    · cases h

lemma eq_ofNat {m : Nat} (h : m = b.toNat) : UInt8.ofNat m = b := by
  rw [h, UInt8.ofNat_toNat]

lemma piece_of_leads {l : Lead} (h : Leads b.toNat l) (rest : List UInt8) :
    piece b rest = ((takeTails l.tails l.low l.high l.bits rest).1.map Char.ofNat,
      (takeTails l.tails l.low l.high l.bits rest).2) := by
  rw [piece, lead?_eq_some_iff.mpr h]

lemma exists_of_piece (h : piece b rest = (some c, r)) :
    b :: rest = String.utf8EncodeChar c ++ r := by
  have hlt := b.toNat_lt
  cases hlead : lead? b with
  | none => rw [piece, hlead] at h; cases h
  | some l =>
    have hl := lead?_eq_some_iff.mp hlead
    rw [piece_of_leads hl] at h
    obtain ⟨hcode, hr⟩ := Prod.mk.inj h
    obtain ⟨n, hn, rfl⟩ := Option.map_eq_some_iff.mp hcode
    have htake : takeTails l.tails l.low l.high l.bits rest = (some n, r) := Prod.ext hn hr
    cases hl with
    | one hb =>
      obtain ⟨hn, rfl⟩ := Prod.mk.inj htake
      have hn : b.toNat = n := Option.some.inj hn
      rw [encode_one (by omega), eq_ofNat hn.symm]
      rfl
    | two hb hb' =>
      obtain ⟨t, rest, rfl, ht, ht', hnone⟩ := exists_of_takeTails htake
      obtain ⟨hn, rfl⟩ := Prod.mk.inj hnone
      have hn : (b.toNat - 0xC0) * 64 + (t.toNat - 0x80) = n := Option.some.inj hn
      change 0x80 ≤ t.toNat at ht
      change t.toNat ≤ 0xBF at ht'
      rw [encode_two (by omega) (by omega), eq_ofNat (b := b) (by omega),
        eq_ofNat (b := t) (by omega)]
      rfl
    | three hb hb' =>
      obtain ⟨t, rest, rfl, ht, ht', hnext⟩ := exists_of_takeTails htake
      obtain ⟨u, rest, rfl, hu, hu', hnone⟩ := exists_of_takeTails hnext
      obtain ⟨hn, rfl⟩ := Prod.mk.inj hnone
      have hn : ((b.toNat - 0xE0) * 64 + (t.toNat - 0x80)) * 64 + (u.toNat - 0x80) = n :=
        Option.some.inj hn
      change 0x80 ≤ u.toNat at hu
      change u.toNat ≤ 0xBF at hu'
      have hlow := three_low b.toNat
      have hhigh := three_high b.toNat
      have hvalid : n.isValidChar := by unfold Nat.isValidChar; omega
      rw [encode_three (by omega) (by omega) hvalid, eq_ofNat (b := b) (by omega),
        eq_ofNat (b := t) (by omega), eq_ofNat (b := u) (by omega)]
      rfl
    | four hb hb' =>
      obtain ⟨t, rest, rfl, ht, ht', hnext⟩ := exists_of_takeTails htake
      obtain ⟨u, rest, rfl, hu, hu', hnext⟩ := exists_of_takeTails hnext
      obtain ⟨v, rest, rfl, hv, hv', hnone⟩ := exists_of_takeTails hnext
      obtain ⟨hn, rfl⟩ := Prod.mk.inj hnone
      have hn : (((b.toNat - 0xF0) * 64 + (t.toNat - 0x80)) * 64 + (u.toNat - 0x80)) * 64 +
          (v.toNat - 0x80) = n := Option.some.inj hn
      change 0x80 ≤ u.toNat at hu
      change u.toNat ≤ 0xBF at hu'
      change 0x80 ≤ v.toNat at hv
      change v.toNat ≤ 0xBF at hv'
      have hlow := four_low b.toNat
      have hhigh := four_high b.toNat
      rw [encode_four (by omega) (by omega), eq_ofNat (b := b) (by omega),
        eq_ofNat (b := t) (by omega), eq_ofNat (b := u) (by omega), eq_ofNat (b := v) (by omega)]
      rfl

lemma takeTails_cons_ofNat {m : Nat} (hm : m < 256) (h : low.toNat ≤ m)
    (h' : m ≤ high.toNat) (bs : List UInt8) :
    takeTails (k + 1) low high code (UInt8.ofNat m :: bs) =
      takeTails k 0x80 0xBF (code * 64 + (m - 0x80)) bs := by
  have hnat : (UInt8.ofNat m).toNat = m := UInt8.toNat_ofNat_of_lt hm
  rw [takeTails_cons (by omega) (by omega), hnat]

lemma takeTails_tail (m k code : Nat) (bs : List UInt8) :
    takeTails (k + 1) 0x80 0xBF code (UInt8.ofNat (m % 64 + 0x80) :: bs) =
      takeTails k 0x80 0xBF (code * 64 + m % 64) bs := by
  have hlow : 0x80 ≤ m % 64 + 0x80 := by omega
  have hhigh : m % 64 + 0x80 ≤ 0xBF := by omega
  have hsub : m % 64 + 0x80 - 0x80 = m % 64 := by omega
  rw [takeTails_cons_ofNat (by omega) hlow hhigh, hsub]

lemma piece_ofNat {l : Lead} (hm : m < 256) (hl : Leads m l)
    (h : takeTails l.tails l.low l.high l.bits rest = (some n, r)) :
    piece (UInt8.ofNat m) rest = (some (Char.ofNat n), r) := by
  have hnat : (UInt8.ofNat m).toNat = m := UInt8.toNat_ofNat_of_lt hm
  rw [piece_of_leads (hnat.symm ▸ hl), h]
  rfl

lemma exists_encode_ofNat (hn : n.isValidChar) : ∃ b tails,
    String.utf8EncodeChar (Char.ofNat n) = b :: tails ∧
      ∀ bs, piece b (tails ++ bs) = (some (Char.ofNat n), bs) := by
  have hmax : n < 0xD800 ∨ 0xDFFF < n ∧ n < 0x110000 := hn
  by_cases h1 : n < 0x80
  · exact ⟨_, _, encode_one h1, fun bs => piece_ofNat (by omega) (.one h1) rfl⟩
  by_cases h2 : n < 0x800
  · refine ⟨_, _, encode_two (by omega) h2, fun bs =>
      piece_ofNat (by omega) (.two (by omega) (by omega)) ?_⟩
    change takeTails 1 0x80 0xBF (n / 64 + 0xC0 - 0xC0) (UInt8.ofNat (n % 64 + 0x80) :: bs) = _
    have hn : (n / 64 + 0xC0 - 0xC0) * 64 + n % 64 = n := by omega
    rw [takeTails_tail, hn]
    rfl
  by_cases h3 : n < 0x10000
  · generalize hlead : n / 4096 + 0xE0 = m
    have hlow := three_low m
    have hhigh := three_high m
    refine ⟨_, _, encode_three (by omega) h3 hn, fun bs =>
      piece_ofNat (by omega) (.three (by omega) (by omega)) ?_⟩
    rw [hlead]
    change takeTails 2 (three m).low (three m).high (m - 0xE0)
      (UInt8.ofNat (n / 64 % 64 + 0x80) :: UInt8.ofNat (n % 64 + 0x80) :: bs) = _
    have hn : ((m - 0xE0) * 64 + (n / 64 % 64 + 0x80 - 0x80)) * 64 + n % 64 = n := by omega
    rw [takeTails_cons_ofNat (by omega) (by omega) (by omega), takeTails_tail, hn]
    rfl
  · generalize hlead : n / 262144 + 0xF0 = m
    have hlow := four_low m
    have hhigh := four_high m
    refine ⟨_, _, encode_four (by omega) (by omega), fun bs =>
      piece_ofNat (by omega) (.four (by omega) (by omega)) ?_⟩
    rw [hlead]
    change takeTails 3 (four m).low (four m).high (m - 0xF0)
      (UInt8.ofNat (n / 4096 % 64 + 0x80) :: UInt8.ofNat (n / 64 % 64 + 0x80) ::
        UInt8.ofNat (n % 64 + 0x80) :: bs) = _
    have hn : (((m - 0xF0) * 64 + (n / 4096 % 64 + 0x80 - 0x80)) * 64 + n / 64 % 64) * 64 +
      n % 64 = n := by omega
    rw [takeTails_cons_ofNat (by omega) (by omega) (by omega), takeTails_tail, takeTails_tail, hn]
    rfl

/-- Every character's encoding is read back as that character, whatever bytes follow it. -/
lemma exists_encode (c : Char) : ∃ b tails, String.utf8EncodeChar c = b :: tails ∧
    ∀ bs, piece b (tails ++ bs) = (some c, bs) := by
  have hc := exists_encode_ofNat (n := c.toNat) c.valid
  rwa [Char.ofNat_toNat] at hc

/-- A piece is a character exactly if that character's encoding stands there. -/
theorem piece_eq_some_iff :
    piece b rest = (some c, r) ↔ b :: rest = String.utf8EncodeChar c ++ r := by
  constructor
  · exact exists_of_piece
  · intro h
    obtain ⟨b', tails, hencode, hpiece⟩ := exists_encode c
    rw [hencode] at h
    obtain ⟨rfl, rfl⟩ := List.cons.inj h
    exact hpiece r

lemma pieces_encode_append (c : Char) (bs : List UInt8) :
    pieces (String.utf8EncodeChar c ++ bs) = some c :: pieces bs := by
  obtain ⟨b, tails, hencode, hpiece⟩ := exists_encode c
  rw [hencode, List.cons_append, pieces, hpiece]

lemma pieces_encode (cs : List Char) : pieces (encode cs) = cs.map some := by
  induction cs with
  | nil => rw [encode, List.flatMap_nil, pieces]; rfl
  | cons c cs ih =>
    rw [encode, List.flatMap_cons, pieces_encode_append, ← encode, ih, List.map_cons]

lemma eq_encode_of_pieces {cs : List Char} (h : pieces bs = cs.map some) : bs = encode cs := by
  induction cs generalizing bs with
  | nil =>
    cases bs with
    | nil => rfl
    | cons b rest => rw [pieces] at h; cases h
  | cons c cs ih =>
    cases bs with
    | nil => rw [pieces] at h; cases h
    | cons b rest =>
      rw [pieces] at h
      obtain ⟨hpiece, hrest⟩ := List.cons.inj h
      rw [piece_eq_some_iff.mp (Prod.ext hpiece rfl), encode, List.flatMap_cons, ← encode,
        ← ih hrest]

lemma mapM_id_eq_some_iff {ps : List (Option Char)} {cs : List Char} :
    ps.mapM id = some cs ↔ ps = cs.map some := by
  induction ps generalizing cs with
  | nil => cases cs <;> simp
  | cons p ps ih =>
    cases p with
    | none => cases cs <;> simp
    | some c =>
      cases cs with
      | nil => simp [Option.bind_eq_some_iff]
      | cons d cs => simpa [Option.bind_eq_some_iff, ih] using and_comm

/-- What decodes in full is the encoding of its text. -/
theorem decode?_eq_some_iff {cs : List Char} : decode? bs = some cs ↔ bs = encode cs := by
  rw [decode?, mapM_id_eq_some_iff]
  constructor
  · exact eq_encode_of_pieces
  · intro h
    rw [h, pieces_encode]

/-- A subsequence that could be kept together: a single byte, or the beginning of a character. -/
def Subpart (t : List UInt8) : Prop := t.length = 1 ∨ ∃ c : Char, t <+: String.utf8EncodeChar c

/-- No character stands here, and `t` is the longest subpart that does. -/
structure Broken (t rest : List UInt8) : Prop where
  unconvertible : ∀ c : Char, ¬ String.utf8EncodeChar c <+: t ++ rest
  nonempty : t ≠ []
  subpart : Subpart t
  longest : ∀ u, u <+: t ++ rest → Subpart u → u.length ≤ t.length

/-- Text in which each broken piece is one replacement character. -/
inductive Repairs : List UInt8 → List Char → Prop
  | nil : Repairs [] []
  | char {bs : List UInt8} {cs : List Char} (c : Char) (h : Repairs bs cs) :
    Repairs (String.utf8EncodeChar c ++ bs) (c :: cs)
  | broken {t bs : List UInt8} {cs : List Char} (h : Broken t bs) (hrest : Repairs bs cs) :
    Repairs (t ++ bs) ('\uFFFD' :: cs)

lemma exists_tails (k code : Nat) :
    ∃ us n, takeTails k 0x80 0xBF code us = (some n, []) := by
  induction k generalizing code with
  | zero => exact ⟨[], code, rfl⟩
  | succ k ih =>
    obtain ⟨us, n, hus⟩ := ih (code * 64 + 0)
    exact ⟨0x80 :: us, n, hus⟩

/-- Tails that give out can be completed, and with what stopped them they never are. -/
lemma exists_of_takeTails_none (hrange : low.toNat ≤ high.toNat)
    (h : takeTails k low high code bs = (none, r)) : ∃ ts, bs = ts ++ r ∧
      (∃ us n, takeTails k low high code (ts ++ us) = (some n, [])) ∧
      ∀ x r', r = x :: r' → ∀ more,
        takeTails k low high code (ts ++ x :: more) = (none, x :: more) := by
  induction k generalizing low high code bs with
  | zero => cases h
  | succ k ih =>
    have hstop : ∃ us n, takeTails (k + 1) low high code us = (some n, []) := by
      obtain ⟨us, n, hus⟩ := exists_tails k (code * 64 + (low.toNat - 0x80))
      exact ⟨low :: us, n, by rw [takeTails_cons (Nat.le_refl _) hrange, hus]⟩
    cases bs with
    | nil =>
      obtain ⟨-, rfl⟩ := Prod.mk.inj h
      exact ⟨[], rfl, hstop, fun x r' hr => nomatch hr⟩
    | cons b bs =>
      rw [takeTails] at h
      split_ifs at h with hb
      · obtain ⟨ts, rfl, ⟨us, n, hus⟩, hmore⟩ := ih (by decide) h
        refine ⟨b :: ts, rfl, ⟨us, n, ?_⟩, fun x r' hr more => ?_⟩
        · rw [List.cons_append, takeTails, if_pos hb, hus]
        · rw [List.cons_append, takeTails, if_pos hb, hmore x r' hr]
      · obtain ⟨-, rfl⟩ := Prod.mk.inj h
        refine ⟨[], rfl, hstop, fun x r' hr more => ?_⟩
        obtain ⟨rfl, rfl⟩ := List.cons.inj hr
        rw [List.nil_append, takeTails, if_neg hb]

lemma range_of_leads {l : Lead} (h : Leads n l) : l.low.toNat ≤ l.high.toNat := by
  cases h with
  | one h => exact Nat.le_of_ble_eq_true rfl
  | two h h' => exact Nat.le_of_ble_eq_true rfl
  | three h h' =>
    have hlow := three_low n
    have hhigh := three_high n
    omega
  | four h h' =>
    have hlow := four_low n
    have hhigh := four_high n
    omega

/-- A broken piece is a subpart, and whatever stands behind it could not have continued it. -/
lemma exists_stop (h : piece b rest = (none, r)) : ∃ ts, rest = ts ++ r ∧ Subpart (b :: ts) ∧
    ∀ x r', r = x :: r' → ∀ more, (piece b (ts ++ x :: more)).1 = none := by
  cases hlead : lead? b with
  | none =>
    have hnone : ∀ rest, piece b rest = (none, rest) := by
      intro rest
      rw [piece, hlead]
    obtain ⟨-, rfl⟩ := Prod.mk.inj ((hnone rest).symm.trans h)
    exact ⟨[], rfl, .inl rfl, fun x r' _ more => by rw [hnone]⟩
  | some l =>
    have hl := lead?_eq_some_iff.mp hlead
    have hpiece := piece_of_leads hl
    rw [hpiece] at h
    obtain ⟨hcode, hr⟩ := Prod.mk.inj h
    have htake : takeTails l.tails l.low l.high l.bits rest = (none, r) :=
      Prod.ext (Option.map_eq_none_iff.mp hcode) hr
    obtain ⟨ts, hts, ⟨us, n, hus⟩, hmore⟩ := exists_of_takeTails_none (range_of_leads hl) htake
    refine ⟨ts, hts, .inr ⟨Char.ofNat n, us, ?_⟩, fun x r' hr more => ?_⟩
    · have hfull : piece b (ts ++ us) = (some (Char.ofNat n), []) := by rw [hpiece, hus]; rfl
      rw [← List.append_nil (String.utf8EncodeChar _), ← piece_eq_some_iff.mp hfull]
      rfl
    · rw [hpiece, hmore x r' hr]
      rfl

/-- A longer subpart would begin a character, which reads as that character. -/
lemma broken_of_piece (h : piece b rest = (none, r)) : ∃ t, b :: rest = t ++ r ∧ Broken t r := by
  obtain ⟨ts, rfl, hsubpart, hstop⟩ := exists_stop h
  refine ⟨b :: ts, rfl, ?_, List.cons_ne_nil b ts, hsubpart, ?_⟩
  · intro c hc
    obtain ⟨s, hs⟩ := hc
    have hsome : piece b (ts ++ r) = (some c, s) := piece_eq_some_iff.mpr hs.symm
    rw [h] at hsome
    cases hsome
  · intro u hu hsub
    apply Nat.le_of_not_lt
    intro hlong
    obtain ⟨w, rfl⟩ := List.prefix_of_prefix_length_le (List.prefix_append _ _) hu
      (Nat.le_of_lt hlong)
    obtain ⟨s, hs⟩ := hu
    rw [List.append_assoc] at hs
    have hws : w ++ s = r := List.append_cancel_left hs
    cases w with
    | nil => simp at hlong
    | cons x w =>
      cases hsub with
      | inl hone => simp at hone
      | inr hbegin =>
        obtain ⟨c, v, hv⟩ := hbegin
        have hsome : piece b (ts ++ x :: (w ++ v)) = (some c, []) := by
          rw [piece_eq_some_iff, List.append_nil, ← hv]
          simp
        have hnone := hstop x (w ++ s) hws.symm (w ++ v)
        rw [hsome] at hnone
        cases hnone

lemma Broken.unique {t u s : List UInt8} (h : Broken t r) (h' : Broken u s)
    (heq : t ++ r = u ++ s) : t = u ∧ r = s := by
  have hle : u.length ≤ t.length :=
    h.longest u (heq ▸ List.prefix_append u s) h'.subpart
  have hge : t.length ≤ u.length :=
    h'.longest t (heq ▸ List.prefix_append t r) h.subpart
  exact List.append_inj heq (Nat.le_antisymm hge hle)

lemma piece_of_broken {t : List UInt8} (h : Broken t r) (heq : b :: rest = t ++ r) :
    piece b rest = (none, r) := by
  cases hp : piece b rest with
  | mk p s =>
    cases p with
    | none =>
      obtain ⟨u, hu, hbroken⟩ := broken_of_piece hp
      rw [(h.unique hbroken (heq.symm.trans hu)).2]
    | some c =>
      have hencode := heq.symm.trans (piece_eq_some_iff.mp hp)
      exact absurd ⟨s, hencode.symm⟩ (h.unconvertible c)

lemma repairs_decodeLossy (bs : List UInt8) : Repairs bs (decodeLossy bs) := by
  unfold decodeLossy
  fun_induction pieces bs with
  | case1 => exact .nil
  | case2 b rest ih =>
    cases hp : piece b rest with
    | mk p s =>
      rw [hp] at ih
      cases p with
      | none =>
        obtain ⟨t, ht, hbroken⟩ := broken_of_piece hp
        rw [ht]
        exact .broken hbroken ih
      | some c =>
        rw [piece_eq_some_iff.mp hp]
        exact .char c ih

/-- Repair is substitution of maximal subparts. -/
theorem repairs_iff {cs : List Char} : Repairs bs cs ↔ decodeLossy bs = cs := by
  constructor
  · intro h
    induction h with
    | nil => rw [decodeLossy, pieces]; rfl
    | char c h ih => rw [decodeLossy, pieces_encode_append, List.map_cons, ← decodeLossy, ih]; rfl
    | @broken t bs cs hbroken h ih =>
      cases t with
      | nil => exact absurd rfl hbroken.nonempty
      | cons b t =>
        have hpiece : piece b (t ++ bs) = (none, bs) := piece_of_broken hbroken rfl
        rw [List.cons_append, decodeLossy, pieces, hpiece, List.map_cons, ← decodeLossy, ih]
        rfl
  · intro h
    rw [← h]
    exact repairs_decodeLossy bs

end PaymentDrill.Text.Utf8
