import Mathlib.Data.List.TakeWhile
import PaymentDrill.Decimal.Reading
import PaymentDrill.Proofs.Shortest

/-!
# Text that reads back

The plain layout writes the digits of a decimal with zeros where its exponent asks for them,
and leaves out zeros that end a fraction. What it writes is worth as much as the decimal, so
reading it comes to the same value. Reading gives up early on numbers far beyond the format,
where rounding would come to zero or to an infinity.
-/
namespace PaymentDrill

open Binary64

namespace Decimal

variable {d : Decimal} {s : Bool}

lemma two_zpow_le_ten_zpow {e : ℤ} (he : 0 ≤ e) : (2 : ℚ) ^ (3 * e) ≤ 10 ^ e := by
  rw [zpow_mul]
  exact zpow_le_zpow_left₀ he (by norm_num) (by norm_num)

lemma ten_zpow_le_two_zpow {e : ℤ} (he : e ≤ 0) : (10 : ℚ) ^ e ≤ 2 ^ (3 * e) := by
  have hinv := two_zpow_le_ten_zpow (Int.neg_nonneg.mpr he)
  rw [mul_neg, zpow_neg, zpow_neg] at hinv
  exact (inv_le_inv₀ (by positivity) (by positivity)).mp hinv

/-- To give up early makes no difference. -/
theorem toBinary64Capped_eq (s : Bool) (d : Decimal) : d.toBinary64Capped s = d.toBinary64 s := by
  rw [toBinary64Capped, toBinary64_eq_nearest]
  split_ifs with hsmall hlarge
  · refine (nearest_of_lt s d.value_nonneg ?_).symm
    by_cases hd : d.digits = 0
    · rw [value, hd, Nat.cast_zero, zero_mul, mul_zero]
      exact two_zpow_pos _
    · have hexp : d.leading + 1 ≤ -400 := by have := hsmall.resolve_left hd; omega
      calc 2 * d.value
          ≤ 2 * 10 ^ (d.leading + 1) := by gcongr; exact (leading_bounds hd).2.le
        _ ≤ 2 ^ (1 : ℤ) * 2 ^ (3 * (d.leading + 1)) := by
            rw [zpow_one]
            gcongr
            exact ten_zpow_le_two_zpow (by omega)
        _ = 2 ^ (1 + 3 * (d.leading + 1)) := (zpow_add₀ two_ne_zero _ _).symm
        _ < 2 ^ (-1074 : ℤ) := zpow_lt_zpow_right₀ (by norm_num) (by omega)
  · have hd : d.digits ≠ 0 := fun hd => hsmall (.inl hd)
    refine (nearest_of_ge s ?_).symm
    calc (2 : ℚ) ^ (1024 : ℤ)
        ≤ 2 ^ (3 * d.leading) := two_zpow_le (by omega)
      _ ≤ 10 ^ d.leading := two_zpow_le_ten_zpow (by omega)
      _ ≤ d.value := (leading_bounds hd).1
  · rfl

/-- What digits in front of and behind a point are worth. -/
def worth (whole fraction : List Char) : ℚ :=
  Nat.ofDigitChars 10 (whole ++ fraction) 0 / 10 ^ fraction.length

/-- Digits, and a point only in front of more digits. -/
def layout (whole fraction : List Char) : List Char :=
  match fraction with
  | [] => whole
  | ds => whole ++ '.' :: ds

/-- The places behind the point, of which the layout drops the last zeros. -/
def places (d : Decimal) : List Char :=
  List.replicate ((-d.exponent).toNat - (natText d.digits).length) '0' ++
    (natText d.digits).drop ((natText d.digits).length - (-d.exponent).toNat)

lemma plain_eq (d : Decimal) : d.plain = layout d.whole d.fraction := by
  unfold plain layout
  cases d.fraction <;> rfl

lemma fraction_eq (d : Decimal) : d.fraction = dropTrailingZeros d.places := rfl

lemma length_places (d : Decimal) : d.places.length = (-d.exponent).toNat := by
  rw [places, List.length_append, List.length_replicate, List.length_drop]
  omega

lemma ofDigitChars_append (xs ys : List Char) : Nat.ofDigitChars 10 (xs ++ ys) 0 =
    10 ^ ys.length * Nat.ofDigitChars 10 xs 0 + Nat.ofDigitChars 10 ys 0 := by
  rw [Nat.ofDigitChars_append, Nat.ofDigitChars_eq_ofDigitChars_zero]

lemma ofDigitChars_zeros (xs : List Char) (n : ℕ) :
    Nat.ofDigitChars 10 (xs ++ List.replicate n '0') 0 = 10 ^ n * Nat.ofDigitChars 10 xs 0 := by
  rw [ofDigitChars_append, Nat.ofDigitChars_replicate_zero, List.length_replicate, mul_zero,
    add_zero]

/-- All digits of a decimal are there, with zeros where its exponent asks for them. -/
lemma ofDigitChars_whole_places (d : Decimal) :
    Nat.ofDigitChars 10 (d.whole ++ d.places) 0 = d.digits * 10 ^ d.exponent.toNat := by
  have hdigits : Nat.ofDigitChars 10 (natText d.digits) 0 = d.digits :=
    Nat.ofDigitChars_ten_toDigits
  have hpos : 0 < (natText d.digits).length := Nat.length_toDigits_pos
  unfold whole places
  dsimp only
  split_ifs with hshort
  · have hexp : d.exponent.toNat = 0 := by omega
    have hdrop : (natText d.digits).length - (-d.exponent).toNat = 0 := by omega
    rw [hexp, hdrop, List.drop_zero, pow_zero, mul_one, List.singleton_append, ← List.cons_append,
      ← List.replicate_succ, ofDigitChars_append, Nat.ofDigitChars_replicate_zero, mul_zero,
      mul_zero, zero_add, hdigits]
  · have hpad : (-d.exponent).toNat - (natText d.digits).length = 0 := by omega
    rw [hpad, List.replicate_zero, List.nil_append]
    rcases le_total 0 d.exponent with hexp | hexp
    · have hplaces : (-d.exponent).toNat = 0 := by omega
      rw [hplaces, Nat.sub_zero, List.take_length, List.drop_length, List.append_nil,
        ofDigitChars_zeros, hdigits, mul_comm]
    · have hzeros : d.exponent.toNat = 0 := by omega
      rw [hzeros, List.replicate_zero, List.append_nil, List.take_append_drop, hdigits, pow_zero,
        mul_one]

/-- What is dropped are zeros. -/
lemma exists_zeros (cs : List Char) : ∃ n, cs = dropTrailingZeros cs ++ List.replicate n '0' := by
  have hzeros := List.eq_replicate_of_mem (a := '0') (l := cs.reverse.takeWhile (· == '0'))
    fun c hc => by simpa using List.mem_takeWhile_imp hc
  have hsplit := congrArg List.reverse
    (List.takeWhile_append_dropWhile (p := (· == '0')) (l := cs.reverse))
  rw [hzeros, List.reverse_append, List.reverse_replicate, List.reverse_reverse] at hsplit
  exact ⟨_, hsplit.symm⟩

/-- The plain layout is worth as much as the decimal. -/
theorem worth_plain (d : Decimal) : worth d.whole d.fraction = d.value := by
  obtain ⟨n, hn⟩ := exists_zeros d.places
  rw [← fraction_eq] at hn
  have hlength : d.fraction.length + n = (-d.exponent).toNat := by
    rw [← length_places, congrArg List.length hn, List.length_append, List.length_replicate]
  have hall := ofDigitChars_whole_places d
  rw [hn, ← List.append_assoc, ofDigitChars_zeros] at hall
  have hall' : (10 : ℚ) ^ n * Nat.ofDigitChars 10 (d.whole ++ d.fraction) 0 =
      d.digits * 10 ^ d.exponent.toNat := by exact_mod_cast hall
  rw [worth, value, ten_zpow_eq_div, ← mul_div_assoc, ← hall', ← hlength, pow_add]
  field_simp

lemma isDigit_natText {n : ℕ} {c : Char} (h : c ∈ natText n) : c.isDigit = true :=
  Nat.isDigit_of_mem_toDigits (by decide) le_rfl h

lemma isDigit_replicate_zero {n : ℕ} {c : Char} (h : c ∈ List.replicate n '0') :
    c.isDigit = true := by
  rw [List.eq_of_mem_replicate h]
  rfl

lemma isDigit_whole {c : Char} (h : c ∈ d.whole) : c.isDigit = true := by
  unfold whole at h
  dsimp only at h
  split_ifs at h
  · rw [List.mem_singleton.mp h]
    rfl
  · rcases List.mem_append.mp h with htake | hzero
    · exact isDigit_natText (List.mem_of_mem_take htake)
    · exact isDigit_replicate_zero hzero

lemma whole_ne_nil (d : Decimal) : d.whole ≠ [] := by
  unfold whole
  dsimp only
  split_ifs with hshort
  · exact List.cons_ne_nil _ _
  · intro h
    have htake := congrArg List.length (List.append_eq_nil_iff.mp h).1
    rw [List.length_take, List.length_nil] at htake
    omega

lemma isDigit_fraction {c : Char} (h : c ∈ d.fraction) : c.isDigit = true := by
  obtain ⟨n, hn⟩ := exists_zeros d.places
  have hplaces : c ∈ d.places := by
    rw [hn, ← fraction_eq]
    exact List.mem_append_left _ h
  rcases List.mem_append.mp hplaces with hzero | hdrop
  · exact isDigit_replicate_zero hzero
  · exact isDigit_natText (List.mem_of_mem_drop hdrop)

section Reading

variable {whole fraction : List Char}

lemma mem_layout {c : Char} (hc : c ∈ layout whole fraction) :
    c = '.' ∨ c ∈ whole ++ fraction := by
  cases fraction with
  | nil => exact .inr (List.mem_append_left _ hc)
  | cons d ds => simpa [layout, or_left_comm] using hc

lemma exists_layout_cons (hne : whole ≠ [])
    (hdigits : ∀ c ∈ whole ++ fraction, c.isDigit = true) :
    ∃ c cs, c.isDigit = true ∧ layout whole fraction = c :: cs := by
  obtain ⟨c, cs, rfl⟩ := List.exists_cons_of_ne_nil hne
  refine ⟨c, ?_⟩
  cases fraction with
  | nil => exact ⟨cs, hdigits c (by simp), rfl⟩
  | cons d ds => exact ⟨cs ++ '.' :: d :: ds, hdigits c (by simp), rfl⟩

/-- No exponent is ever written. -/
lemma layout_takeWhile (hdigits : ∀ c ∈ whole ++ fraction, c.isDigit = true) :
    (layout whole fraction).takeWhile (fun c => c != 'e' && c != 'E') = layout whole fraction ∧
      (layout whole fraction).dropWhile (fun c => c != 'e' && c != 'E') = [] := by
  have hall : ∀ c ∈ layout whole fraction, (c != 'e' && c != 'E') = true := by
    intro c hc
    rcases mem_layout hc with rfl | hmem
    · rfl
    · have hdigit := hdigits c hmem
      rw [Bool.and_eq_true, bne_iff_ne, bne_iff_ne]
      constructor <;>
      · rintro rfl
        cases hdigit
  exact ⟨List.takeWhile_eq_self_iff.mpr hall, List.dropWhile_eq_nil_iff.mpr hall⟩

lemma layout_point (hdigits : ∀ c ∈ whole ++ fraction, c.isDigit = true) :
    (layout whole fraction).takeWhile (· != '.') = whole ∧
      ((layout whole fraction).dropWhile (· != '.')).drop 1 = fraction := by
  have hall : ∀ c ∈ whole, (c != '.') = true := by
    intro c hc
    have hdigit := hdigits c (List.mem_append_left _ hc)
    rw [bne_iff_ne]
    rintro rfl
    cases hdigit
  cases fraction with
  | nil =>
    rw [layout, List.takeWhile_eq_self_iff.mpr hall, List.dropWhile_eq_nil_iff.mpr hall]
    exact ⟨rfl, rfl⟩
  | cons d ds =>
    simp only [layout]
    rw [List.takeWhile_append_of_pos hall, List.dropWhile_append_of_pos hall]
    simp

/-- Digits with a point are read as what they are worth. -/
lemma ofText?_layout (hne : whole ≠ []) (hdigits : ∀ c ∈ whole ++ fraction, c.isDigit = true) :
    ∃ d, ofText? (layout whole fraction) = some d ∧ d.value = worth whole fraction := by
  obtain ⟨hmantissa, hscale⟩ := layout_takeWhile hdigits
  obtain ⟨hfront, hback⟩ := layout_point hdigits
  have hall : ¬(whole ++ fraction = [] ∨ ¬(whole ++ fraction).all Char.isDigit = true) := by
    rw [not_or, not_not, List.all_eq_true]
    exact ⟨fun hnil => hne (List.append_eq_nil_iff.mp hnil).1, hdigits⟩
  refine ⟨⟨Nat.ofDigitChars 10 (whole ++ fraction) 0, 0 - fraction.length⟩, ?_, ?_⟩
  · unfold ofText?
    dsimp only
    rw [hmantissa, hscale, hfront, hback, if_neg hall]
    rfl
  · rw [value, worth, zero_sub, zpow_neg, zpow_natCast, div_eq_mul_inv]

end Reading

end Decimal

namespace Binary64

variable {x : Binary64}

/-- How a finite value is written: digits with at most one point between them, and a sign in front
of negative values, zero included. -/
structure Written (x : Binary64) (text : List Char) : Prop where
  shape : ∃ whole fraction, whole ≠ [] ∧ (∀ c ∈ whole ++ fraction, c.isDigit = true) ∧
    text = withSign x.isNegative (Decimal.layout whole fraction) ∧
      nearest x.isNegative (Decimal.worth whole fraction) = x
  shortest : text = withSign x.isNegative (Decimal.shortest .larger x).plain
  reads : ofText? text = some x

/-- The text of a finite value. -/
lemma toText_eq (hx : x.isFinite = true) :
    x.toText = withSign x.isNegative (Decimal.shortest .larger x).plain := by
  obtain ⟨s, m, e, hc, rfl⟩ := isFinite_iff.mp hx
  rfl

/-- A value that is written as digits is what the digits are read as. -/
lemma ofText?_withSign {whole fraction : List Char} (s : Bool) (hne : whole ≠ [])
    (hdigits : ∀ c ∈ whole ++ fraction, c.isDigit = true) :
    ofText? (withSign s (Decimal.layout whole fraction)) =
      some (nearest s (Decimal.worth whole fraction)) := by
  obtain ⟨d, hd, hworth⟩ := Decimal.ofText?_layout hne hdigits
  obtain ⟨c, cs, hc, hcs⟩ := Decimal.exists_layout_cons hne hdigits
  have hread : (Decimal.ofText? (Decimal.layout whole fraction)).map (Decimal.toBinary64Capped s) =
      some (nearest s (Decimal.worth whole fraction)) := by
    rw [hd, Option.map_some, Decimal.toBinary64Capped_eq, Decimal.toBinary64_eq_nearest, hworth]
  rw [hcs] at hread ⊢
  have other (d : Char) (hd : d.isDigit = false) : c ≠ d := by
    rintro rfl
    exact Bool.noConfusion (hc.symm.trans hd)
  have hminus : c ≠ '-' := other '-' rfl
  have hinf : c ≠ 'i' := other 'i' rfl
  have hnan : c ≠ 'N' := other 'N' rfl
  unfold ofText?
  cases s with
  | false => simpa [withSign, hminus, hinf, hnan] using hread
  | true => simpa [withSign, hinf] using hread

/-- The text of a finite value reads back, bit for bit. -/
theorem written_toText (hx : x.isFinite = true) : x.Written x.toText := by
  have hreads := Decimal.shortest_reads .larger hx
  have hdigits : ∀ c ∈ (Decimal.shortest .larger x).whole ++ (Decimal.shortest .larger x).fraction,
      c.isDigit = true := fun c hc =>
    (List.mem_append.mp hc).elim Decimal.isDigit_whole Decimal.isDigit_fraction
  have hnearest : nearest x.isNegative (Decimal.worth (Decimal.shortest .larger x).whole
      (Decimal.shortest .larger x).fraction) = x := by
    rw [Decimal.worth_plain, ← Decimal.toBinary64_eq_nearest, hreads]
  have htext := toText_eq hx
  rw [Decimal.plain_eq] at htext
  refine ⟨⟨_, _, Decimal.whole_ne_nil _, hdigits, htext, hnearest⟩, toText_eq hx, ?_⟩
  rw [htext, ofText?_withSign _ (Decimal.whole_ne_nil _) hdigits, hnearest]

/-- The text of any value but the one that is no number reads back. -/
theorem ofText?_toText (hx : x ≠ .nan) : ofText? x.toText = some x := by
  cases hfin : x.isFinite with
  | true => exact (written_toText hfin).reads
  | false =>
    cases x with
    | nan => exact absurd rfl hx
    | infinite s => cases s <;> rfl
    | finite s m e hc => cases hfin

lemma mem_withSign {s : Bool} {text : List Char} {c : Char} (hc : c ∈ withSign s text) :
    c = '-' ∨ c ∈ text := by
  unfold withSign at hc
  split_ifs at hc
  · exact List.mem_cons.mp hc
  · exact .inr hc

/-- Nothing is written of a value but digits, a sign, a point, and names. -/
lemma mem_toText {c : Char} (hc : c ∈ x.toText) : c.isDigit = true ∨ c ∈ "NaN-.inf".toList := by
  cases x with
  | nan => exact .inr (List.mem_append_left "-.inf".toList hc)
  | infinite s =>
    rcases mem_withSign hc with rfl | hname
    · exact .inr (by decide)
    · exact .inr (List.mem_append_right "NaN-.".toList hname)
  | finite s m e h =>
    rw [toText_eq rfl, Decimal.plain_eq] at hc
    rcases mem_withSign hc with rfl | hlayout
    · exact .inr (by decide)
    rcases Decimal.mem_layout hlayout with rfl | hdigits
    · exact .inr (by decide)
    · exact .inl ((List.mem_append.mp hdigits).elim Decimal.isDigit_whole Decimal.isDigit_fraction)

lemma not_mem_toText {c : Char} (h : c.isDigit = false) (h' : c ∉ "NaN-.inf".toList) :
    c ∉ x.toText := by
  intro hc
  rcases mem_toText hc with hdigit | hname
  · rw [h] at hdigit
    cases hdigit
  · exact h' hname

end Binary64

end PaymentDrill
