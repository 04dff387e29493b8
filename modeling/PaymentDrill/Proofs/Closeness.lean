import Mathlib.Data.Nat.Digits.Defs
import PaymentDrill.Proofs.Rereading

/-!
# Closeness

How far a computed number is from the exact one, as a share of the exact one. Rounding a magnitude
of full precision moves it by one part in 2^53 at most. The shares of two terms bound that of
their sum, and those of a numerator and a denominator add up in the quotient. A layout with a
fixed number of places is off by half of its last place.
-/
namespace PaymentDrill

/-- A number within a share of an exact one. -/
def Close (ε q r : ℚ) : Prop := |r - q| ≤ ε * q

namespace Close

variable {ε δ q q' r r' x : ℚ}

lemma refl (hε : 0 ≤ ε) (hq : 0 ≤ q) : Close ε q q := by
  rw [Close, sub_self, abs_zero]
  exact mul_nonneg hε hq

lemma mono (h : Close ε q r) (hle : ε ≤ δ) (hq : 0 ≤ q) : Close δ q r :=
  le_trans h (mul_le_mul_of_nonneg_right hle hq)

lemma bounds (h : Close ε q r) : (1 - ε) * q ≤ r ∧ r ≤ (1 + ε) * q := by
  have habs := abs_le.mp h
  constructor <;> linarith

lemma add (h : Close ε q r) (h' : Close ε q' r') : Close ε (q + q') (r + r') := by
  calc |r + r' - (q + q')|
      = |(r - q) + (r' - q')| := by rw [add_sub_add_comm]
    _ ≤ |r - q| + |r' - q'| := abs_add_le _ _
    _ ≤ ε * (q + q') := by rw [mul_add]; exact add_le_add h h'

/-- What is close to a close number is close, with a little more than both shares. -/
lemma trans (h : Close ε q r) (h' : Close δ r x) (hδ : 0 ≤ δ) : Close (ε + δ + δ * ε) q x := by
  have hr : δ * r ≤ δ * ((1 + ε) * q) := mul_le_mul_of_nonneg_left h.bounds.2 hδ
  calc |x - q|
      ≤ |x - r| + |r - q| := abs_sub_le x r q
    _ ≤ δ * ((1 + ε) * q) + ε * q := add_le_add (le_trans h' hr) h
    _ = (ε + δ + δ * ε) * q := by ring

/-- A quotient of close numbers. -/
lemma div {num den num' den' : ℚ} (h : Close ε num num') (h' : Close δ den den') (hδ : δ < 1)
    (hnum : 0 ≤ num) (hden : 0 < den) (hε : 0 ≤ ε) (hδ' : 0 ≤ δ) :
    Close ((ε + δ) / (1 - δ)) (num / den) (num' / den') := by
  have hlow : 0 < (1 - δ) * den := mul_pos (by linarith) hden
  have hpos : 0 < den' := hlow.trans_le h'.bounds.1
  have hcross : |num' * den - den' * num| ≤ (ε + δ) * num * den := by
    calc |num' * den - den' * num|
        = |(num' - num) * den - num * (den' - den)| := by ring_nf
      _ ≤ |(num' - num) * den| + |num * (den' - den)| := abs_sub _ _
      _ = |num' - num| * den + num * |den' - den| := by
          rw [abs_mul, abs_mul, abs_of_pos hden, abs_of_nonneg hnum]
      _ ≤ ε * num * den + num * (δ * den) :=
          add_le_add (mul_le_mul_of_nonneg_right h hden.le) (mul_le_mul_of_nonneg_left h' hnum)
      _ = (ε + δ) * num * den := by ring
  calc |num' / den' - num / den|
      = |num' * den - den' * num| / (den' * den) := by
        rw [div_sub_div _ _ hpos.ne' hden.ne', abs_div, abs_of_pos (mul_pos hpos hden)]
    _ ≤ (ε + δ) * num * den / ((1 - δ) * den * den) := by
        gcongr
        exact h'.bounds.1
    _ = (ε + δ) / (1 - δ) * (num / den) := by
        have hne : 1 - δ ≠ 0 := by linarith
        field_simp

end Close

/-- Zero, or far from where the format ends. -/
def Moderate (k : ℤ) (q : ℚ) : Prop := q = 0 ∨ 2 ^ (-k) ≤ q ∧ q ≤ 2 ^ k

namespace Moderate

variable {j k : ℤ} {ε q r : ℚ}

lemma nonneg (h : Moderate k q) : 0 ≤ q := by
  rcases h with rfl | ⟨hlow, -⟩
  · rfl
  · exact (Binary64.two_zpow_pos _).le.trans hlow

lemma natCast {n : ℕ} (h : n ≤ 2 ^ k.toNat) (hk : 0 ≤ k) : Moderate k n := by
  rcases n.eq_zero_or_pos with rfl | hn
  · exact .inl Nat.cast_zero
  · have hone : (2 : ℚ) ^ (-k) ≤ 1 := zpow_le_one_of_nonpos₀ one_le_two (by omega)
    refine .inr ⟨hone.trans (by exact_mod_cast hn), ?_⟩
    rw [← Int.toNat_of_nonneg hk, zpow_natCast]
    exact_mod_cast h

lemma div (h : Moderate j q) (h' : Moderate k r) : Moderate (j + k) (q / r) := by
  rcases h with rfl | ⟨hlow, hhigh⟩
  · exact .inl (zero_div r)
  rcases h' with rfl | ⟨hlow', hhigh'⟩
  · exact .inl (div_zero q)
  · have hpos : 0 < r := (Binary64.two_zpow_pos _).trans_le hlow'
    have hnonneg : 0 ≤ q := (Binary64.two_zpow_pos _).le.trans hlow
    right
    constructor
    · rw [le_div_iff₀ hpos]
      calc (2 : ℚ) ^ (-(j + k)) * r
          ≤ 2 ^ (-(j + k)) * 2 ^ k := by gcongr
        _ = 2 ^ (-j) := by rw [← zpow_add₀ two_ne_zero]; congr 1; omega
        _ ≤ q := hlow
    · rw [div_le_iff₀ hpos]
      calc q
          ≤ 2 ^ j := hhigh
        _ = 2 ^ (j + k) * 2 ^ (-k) := by rw [← zpow_add₀ two_ne_zero]; congr 1; omega
        _ ≤ 2 ^ (j + k) * r := by gcongr

/-- What is close to a number has at most one bit more or less. -/
lemma of_close (h : Moderate k q) (hr : Close ε q r) (hε : ε ≤ 1 / 2) : Moderate (k + 1) r := by
  have hnonneg := h.nonneg
  obtain ⟨hlow', hhigh'⟩ := (hr.mono hε hnonneg).bounds
  rcases h with rfl | ⟨hlow, hhigh⟩
  · exact .inl (le_antisymm (by linarith) (by linarith))
  · right
    rw [neg_add, ← sub_eq_add_neg, zpow_sub_one₀ two_ne_zero, zpow_add_one₀ two_ne_zero]
    constructor <;> linarith

end Moderate

namespace Binary64

variable {k : ℤ} {ε q r : ℚ} {x : Binary64}

/-- The share that one rounding takes. -/
def roundoff : ℚ := 2 ^ (-53 : ℤ)

lemma roundoff_pos : 0 < roundoff := two_zpow_pos _

/-- At full precision, a unit is one part in 2^52 of the quotient at most. -/
lemma two_zpow_unitExponent_le_mul {num den : ℕ} (hn : 0 < num) (hd : 0 < den)
    (h : (2 : ℚ) ^ (-1022 : ℤ) ≤ num / den) :
    (2 : ℚ) ^ unitExponent num den / 2 ≤ roundoff * (num / den) := by
  have hbit : -1022 ≤ leadingBit num den := by
    have hlt := h.trans_lt (lt_two_zpow_leadingBit hd)
    rw [zpow_lt_zpow_iff_right₀ one_lt_two] at hlt
    omega
  have hunit : unitExponent num den = leadingBit num den - 52 := by
    unfold unitExponent
    omega
  calc (2 : ℚ) ^ unitExponent num den / 2
      = roundoff * 2 ^ leadingBit num den := by
        rw [hunit, roundoff, div_eq_mul_inv, ← zpow_sub_one₀ two_ne_zero, ← zpow_add₀ two_ne_zero]
        congr 1
        omega
    _ ≤ roundoff * (num / den) :=
        mul_le_mul_of_nonneg_left (two_zpow_leadingBit_le hn hd) roundoff_pos.le

/-- A nonnegative finite value within a share of an exact number. -/
structure Approximates (ε q : ℚ) (x : Binary64) : Prop where
  finite : x.isFinite = true
  sign : x.isNegative = false
  close : Close ε q x.modulus

lemma Approximates.mono {δ : ℚ} (h : Approximates ε q x) (hle : ε ≤ δ) (hq : 0 ≤ q) :
    Approximates δ q x :=
  ⟨h.finite, h.sign, h.close.mono hle hq⟩

/-- One rounding moves a magnitude of full precision by one roundoff at most. -/
theorem approximates_nearest (h : Moderate k q) (hk : k ≤ 1022) :
    Approximates roundoff q (nearest false q) := by
  have hsign := isNegative_nearest false q
  rcases h with rfl | ⟨hlow, hhigh⟩
  · refine ⟨rfl, hsign, ?_⟩
    rw [modulus_nearest_zero]
    exact Close.refl roundoff_pos.le le_rfl
  have hpos : 0 < q := (two_zpow_pos _).trans_le hlow
  have hfin : (nearest false q).isFinite = true := by
    refine isFinite_nearest false hpos.le ?_
    calc q
        ≤ 2 ^ (52 + 971 : ℤ) := hhigh.trans (two_zpow_le (by omega))
      _ ≤ (2 ^ 53 - 1 : ℕ) * 2 ^ (971 : ℤ) := two_zpow_le_dyadic (by decide) le_rfl
      _ = greatest.modulus := (modulus_finite ..).symm
      _ < greatest.modulus + 2 ^ (970 : ℤ) := lt_add_of_pos_right _ (two_zpow_pos _)
  have hnear := rounded_near q.num.natAbs q.den_pos
  have hunit := two_zpow_unitExponent_le_mul (natAbs_num_pos hpos) q.den_pos
  rw [natAbs_num_div_den hpos.le] at hnear hunit
  refine ⟨hfin, hsign, ?_⟩
  rw [Close, modulus_nearest hpos hfin]
  exact hnear.trans (hunit ((two_zpow_le (by omega)).trans hlow))

/-- Rounding a number that is close already. -/
theorem Approximates.of_close (h : Close ε q r) (hr : Moderate k r) (hk : k ≤ 1022) :
    Approximates (ε + roundoff + roundoff * ε) q (nearest false r) := by
  obtain ⟨hfin, hsign, hclose⟩ := approximates_nearest hr hk
  exact ⟨hfin, hsign, h.trans hclose roundoff_pos.le⟩

lemma approximates_ofNat {n : ℕ} (h : n ≤ 2 ^ 64) : Approximates roundoff n (ofNat n) := by
  rw [ofNat_eq_nearest]
  exact approximates_nearest (k := 64) (Moderate.natCast h (by decide)) (by decide)

/-- A number of 53 bits is converted as it is. -/
lemma modulus_ofNat {n : ℕ} (h : n < 2 ^ 53) :
    (ofNat n).isFinite = true ∧ (ofNat n).modulus = n := by
  have hdyadic := nearest_dyadic false h (e := 0) (by decide) (by decide)
  rwa [zpow_zero, mul_one, ← ofNat_eq_nearest] at hdyadic

/-- Text with a whole part and a number of places behind the point, and what it is worth. -/
structure Shows (places : ℕ) (r : ℚ) (text : List Char) : Prop where
  shape : ∃ whole fraction, text = whole ++ '.' :: fraction ∧ whole ≠ [] ∧
    (∀ c ∈ whole ++ fraction, c.isDigit = true) ∧ fraction.length = places ∧
      Decimal.worth whole fraction = r

/-- The number of last places that the fixed layout shows. -/
def lastPlaces (places : ℕ) (x : Binary64) : ℕ :=
  roundDiv (x.numerator * 10 ^ places) x.denominator

lemma shows_toFixedText (hx : x.isFinite = true) (hsign : x.isNegative = false) {places : ℕ}
    (hplaces : 0 < places) :
    Shows places (x.lastPlaces places / 10 ^ places) (x.toFixedText places) := by
  obtain ⟨s, m, e, hc, rfl⟩ := isFinite_iff.mp hx
  obtain rfl : s = false := hsign
  generalize hn : lastPlaces places (finite false m e hc) = n
  have hlength : (natText (n % 10 ^ places)).length ≤ places :=
    Nat.toDigits_length 10 _ _ hplaces (Nat.mod_lt _ (by positivity))
  have hfraction : (List.replicate (places - (natText (n % 10 ^ places)).length) '0' ++
      natText (n % 10 ^ places)).length = places := by
    rw [List.length_append, List.length_replicate]
    omega
  refine ⟨⟨natText (n / 10 ^ places), _, ?_, List.ne_nil_of_length_pos Nat.length_toDigits_pos, ?_,
    hfraction, ?_⟩⟩
  · rw [← hn]
    rfl
  · intro c hc
    rcases List.mem_append.mp hc with hwhole | hzeros
    · exact Decimal.isDigit_natText hwhole
    rcases List.mem_append.mp hzeros with hzero | hdigits
    · exact Decimal.isDigit_replicate_zero hzero
    · exact Decimal.isDigit_natText hdigits
  · have hdigits (k : ℕ) : Nat.ofDigitChars 10 (natText k) 0 = k := Nat.ofDigitChars_ten_toDigits
    rw [Decimal.worth, Decimal.ofDigitChars_append, hfraction, Decimal.ofDigitChars_append,
      Nat.ofDigitChars_replicate_zero, mul_zero, mul_zero, zero_add, hdigits, hdigits,
      Nat.div_add_mod]

/-- The fixed layout is off by half of its last place at most. -/
lemma lastPlaces_near (places : ℕ) (x : Binary64) :
    |(x.lastPlaces places / 10 ^ places : ℚ) - x.modulus| ≤ 1 / 2 / 10 ^ places := by
  have hden : 0 < x.denominator := by
    cases x with
    | finite s m e h => exact Nat.pow_pos two_pos
    | _ => exact one_pos
  have hnear := roundDiv_near (x.numerator * 10 ^ places) hden
  have hpos : (0 : ℚ) < 10 ^ places := by positivity
  have hscaled : (x.lastPlaces places / 10 ^ places : ℚ) - x.modulus =
      (x.lastPlaces places - (x.numerator * 10 ^ places : ℕ) / x.denominator) / 10 ^ places := by
    rw [modulus]
    push_cast
    field_simp
  rw [hscaled, abs_div, abs_of_pos hpos]
  exact div_le_div_of_nonneg_right hnear hpos.le

end Binary64

end PaymentDrill
