import Mathlib.Algebra.Order.Field.Rat
import Mathlib.Algebra.Order.Field.Power
import Mathlib.Algebra.Order.Group.Abs
import Mathlib.Data.Rat.Cast.Defs
import Mathlib.Tactic.FieldSimp
import Mathlib.Tactic.Lemma
import Mathlib.Tactic.Linarith
import Mathlib.Tactic.Positivity
import Mathlib.Tactic.Ring
import PaymentDrill.Binary64

/-!
# Rounding

A quotient is rounded to a multiple of a unit, the power of two that leaves 53 bits
for the multiple, or the least unit of the format if that is larger. What the format
holds already is a bound that rounding never crosses: a value below the quotient is
not above the rounded quotient, and a value above the quotient is not below it. This
decides where an operation can overflow.
-/
namespace PaymentDrill.Binary64

lemma two_zpow_eq_div (e : ℤ) : (2 : ℚ) ^ e = 2 ^ e.toNat / 2 ^ (-e).toNat := by
  obtain ⟨n, rfl | rfl⟩ := e.eq_nat_or_neg <;> simp

lemma two_zpow_pos (e : ℤ) : (0 : ℚ) < 2 ^ e := by positivity

lemma two_zpow_le {e f : ℤ} (h : e ≤ f) : (2 : ℚ) ^ e ≤ 2 ^ f :=
  zpow_le_zpow_right₀ (by norm_num) h

lemma two_zpow_le_iff {num den : ℕ} (hd : 0 < den) (e : ℤ) :
    (2 : ℚ) ^ e ≤ num / den ↔ den * 2 ^ e.toNat ≤ num * 2 ^ (-e).toNat := by
  rw [two_zpow_eq_div, div_le_div_iff₀ (by positivity) (by positivity), mul_comm]
  norm_cast

variable {num den : ℕ}

lemma leadingBit_eq (hd : 0 < den) :
    leadingBit num den = if (2 : ℚ) ^ ((num.log2 : ℤ) - den.log2) ≤ num / den
      then (num.log2 : ℤ) - den.log2 else (num.log2 : ℤ) - den.log2 - 1 := by
  simp only [leadingBit, Nat.pow_eq, two_zpow_le_iff hd]

lemma two_zpow_leadingBit_le (hn : 0 < num) (hd : 0 < den) :
    (2 : ℚ) ^ leadingBit num den ≤ num / den := by
  rw [leadingBit_eq hd]
  split_ifs with h
  · exact h
  · have hnum : ((2 ^ num.log2 : ℕ) : ℚ) ≤ num := by exact_mod_cast Nat.log2_self_le hn.ne'
    have hden : (den : ℚ) ≤ (2 ^ (den.log2 + 1) : ℕ) := by exact_mod_cast Nat.lt_log2_self.le
    calc (2 : ℚ) ^ ((num.log2 : ℤ) - den.log2 - 1)
        = (2 ^ num.log2 : ℕ) / (2 ^ (den.log2 + 1) : ℕ) := by
          rw [sub_sub, zpow_sub₀ two_ne_zero]
          norm_cast
      _ ≤ num / den := by gcongr

lemma lt_two_zpow_leadingBit (hd : 0 < den) :
    (num / den : ℚ) < 2 ^ (leadingBit num den + 1) := by
  rw [leadingBit_eq hd]
  split_ifs with h
  · have hnum : (num : ℚ) < (2 ^ (num.log2 + 1) : ℕ) := by exact_mod_cast Nat.lt_log2_self
    have hden : ((2 ^ den.log2 : ℕ) : ℚ) ≤ den := by exact_mod_cast Nat.log2_self_le hd.ne'
    calc (num / den : ℚ)
        < (2 ^ (num.log2 + 1) : ℕ) / (2 ^ den.log2 : ℕ) := by gcongr
      _ = 2 ^ ((num.log2 : ℤ) - den.log2 + 1) := by
          rw [sub_add_eq_add_sub, zpow_sub₀ two_ne_zero]
          norm_cast
  · rw [sub_add_cancel]
    exact not_le.mp h

lemma roundDiv_near (num : ℕ) (hd : 0 < den) : |(roundDiv num den : ℚ) - num / den| ≤ 1 / 2 := by
  have hq : (num / den : ℚ) = (num / den : ℕ) + (num % den : ℕ) / den := by
    rw [eq_comm, ← eq_sub_iff_add_eq', div_eq_iff (by positivity), sub_mul,
      div_mul_cancel₀ _ (by positivity), eq_sub_iff_add_eq]
    exact_mod_cast Nat.mod_add_div' num den
  have hpos : (0 : ℚ) < den := by exact_mod_cast hd
  have hlt : ((num % den : ℕ) : ℚ) < den := by exact_mod_cast Nat.mod_lt num hd
  unfold roundDiv
  dsimp only
  rw [hq]
  split_ifs with h
  · have hle : (2 * (num % den : ℕ) : ℚ) ≤ den := by exact_mod_cast h.elim le_of_lt (·.1.le)
    rw [abs_le]
    constructor
    · have : ((num % den : ℕ) : ℚ) / den ≤ 1 / 2 := by rw [div_le_div_iff₀ hpos two_pos]; linarith
      linarith
    · have : 0 ≤ ((num % den : ℕ) : ℚ) / den := by positivity
      linarith
  · have hle : (den : ℚ) ≤ 2 * (num % den : ℕ) := by
      exact_mod_cast not_lt.mp fun hlt => h (.inl hlt)
    push_cast
    rw [abs_le]
    constructor
    · have : ((num % den : ℕ) : ℚ) / den ≤ 1 := (div_le_one hpos).mpr hlt.le
      linarith
    · have : 1 / 2 ≤ ((num % den : ℕ) : ℚ) / den := by rw [div_le_div_iff₀ two_pos hpos]; linarith
      linarith

/-- Exponent of the unit that a quotient is rounded to. -/
def unitExponent (num den : ℕ) : ℤ := max (leadingBit num den - 52) (-1074)

/-- The nearest number of units. -/
def units (num den : ℕ) : ℕ :=
  roundDiv (num * 2 ^ (-unitExponent num den).toNat) (den * 2 ^ (unitExponent num den).toNat)

/-- The rounded quotient, before its exponent is known to fit. -/
def rounded (num den : ℕ) : ℚ := units num den * 2 ^ unitExponent num den

lemma units_near (num : ℕ) (hd : 0 < den) :
    |(units num den : ℚ) - num / den / 2 ^ unitExponent num den| ≤ 1 / 2 := by
  have hpos : 0 < den * 2 ^ (unitExponent num den).toNat := by positivity
  have h := roundDiv_near (num * 2 ^ (-unitExponent num den).toNat) hpos
  rw [two_zpow_eq_div, div_div_div_eq]
  exact_mod_cast h

/-- Rounding stays on the side of a whole number of units that the quotient is on. -/
lemma le_units {k : ℕ} (hd : 0 < den) (h : k * 2 ^ unitExponent num den ≤ (num / den : ℚ)) :
    k ≤ units num den := by
  have hk : (k : ℚ) ≤ num / den / 2 ^ unitExponent num den :=
    (le_div_iff₀ (two_zpow_pos _)).mpr h
  have hlt : (k : ℚ) < (units num den + 1 : ℕ) := by
    push_cast
    linarith [(abs_le.mp (units_near num hd)).1]
  exact Nat.lt_succ_iff.mp (by exact_mod_cast hlt)

lemma units_le {k : ℕ} (hd : 0 < den) (h : (num / den : ℚ) ≤ k * 2 ^ unitExponent num den) :
    units num den ≤ k := by
  have hk : num / den / 2 ^ unitExponent num den ≤ (k : ℚ) :=
    (div_le_iff₀ (two_zpow_pos _)).mpr h
  have hlt : (units num den : ℚ) < (k + 1 : ℕ) := by
    push_cast
    linarith [(abs_le.mp (units_near num hd)).2]
  exact Nat.lt_succ_iff.mp (by exact_mod_cast hlt)

lemma units_le_two_pow (hd : 0 < den) : units num den ≤ 2 ^ 53 := by
  refine units_le hd ((lt_two_zpow_leadingBit hd).le.trans ?_)
  calc (2 : ℚ) ^ (leadingBit num den + 1)
      ≤ 2 ^ (53 + unitExponent num den) := two_zpow_le (by unfold unitExponent; omega)
    _ = (2 ^ 53 : ℕ) * 2 ^ unitExponent num den := by rw [zpow_add₀ two_ne_zero]; norm_cast

/-- Above the least unit, a quotient is at least half of what 53 bits hold. -/
lemma two_zpow_unitExponent_le (hn : 0 < num) (hd : 0 < den) (h : -1074 < unitExponent num den) :
    (2 : ℚ) ^ (52 + unitExponent num den) ≤ num / den := by
  have he : 52 + unitExponent num den = leadingBit num den := by unfold unitExponent at h ⊢; omega
  exact he ▸ two_zpow_leadingBit_le hn hd

lemma two_pow_le_units (hn : 0 < num) (hd : 0 < den) (h : -1074 < unitExponent num den) :
    2 ^ 52 ≤ units num den := by
  refine le_units hd ((two_zpow_unitExponent_le hn hd h).trans' (le_of_eq ?_))
  rw [zpow_add₀ two_ne_zero]
  norm_cast

section Bounds

variable {m : ℕ} {e : ℤ}

lemma dyadic_lt_two_zpow (hm : m < 2 ^ 53) (e : ℤ) : (m : ℚ) * 2 ^ e < 2 ^ (53 + e) := by
  rw [zpow_add₀ two_ne_zero]
  gcongr
  exact_mod_cast hm

lemma two_zpow_le_dyadic (hm : 2 ^ 52 ≤ m) {k : ℤ} (he : k ≤ 52 + e) :
    (2 : ℚ) ^ k ≤ m * 2 ^ e := by
  calc (2 : ℚ) ^ k
      ≤ 2 ^ (52 + e) := two_zpow_le he
    _ = (2 ^ 52 : ℕ) * 2 ^ e := by rw [zpow_add₀ two_ne_zero]; norm_cast
    _ ≤ m * 2 ^ e := by gcongr

/-- A multiple of a larger unit is a multiple of the smaller one. -/
lemma dyadic_eq {f : ℤ} (h : f ≤ e) (m : ℕ) :
    (m : ℚ) * 2 ^ e = (m * 2 ^ (e - f).toNat : ℕ) * 2 ^ f := by
  obtain ⟨k, rfl⟩ : ∃ k : ℕ, e = f + k := ⟨(e - f).toNat, by omega⟩
  rw [show f + (k : ℤ) - f = k by ring, Int.toNat_natCast, zpow_add₀ two_ne_zero, zpow_natCast]
  push_cast
  ring

theorem le_rounded (hn : 0 < num) (hd : 0 < den) (hm : m < 2 ^ 53) (he : -1074 ≤ e)
    (h : (m * 2 ^ e : ℚ) ≤ num / den) : (m * 2 ^ e : ℚ) ≤ rounded num den := by
  rcases le_or_gt (unitExponent num den) e with hu | hu
  · rw [dyadic_eq hu] at h ⊢
    exact mul_le_mul_of_nonneg_right (by exact_mod_cast le_units hd h) (two_zpow_pos _).le
  · calc (m * 2 ^ e : ℚ)
        ≤ 2 ^ (52 + unitExponent num den) :=
          (dyadic_lt_two_zpow hm e).le.trans (two_zpow_le (by omega))
      _ ≤ rounded num den := two_zpow_le_dyadic (two_pow_le_units hn hd (he.trans_lt hu)) le_rfl

theorem rounded_le (hn : 0 < num) (hd : 0 < den) (hm : m < 2 ^ 53) (he : -1074 ≤ e)
    (h : num / den ≤ (m * 2 ^ e : ℚ)) : rounded num den ≤ (m * 2 ^ e : ℚ) := by
  rcases le_or_gt (unitExponent num den) e with hu | hu
  · rw [dyadic_eq hu] at h ⊢
    exact mul_le_mul_of_nonneg_right (by exact_mod_cast units_le hd h) (two_zpow_pos _).le
  · have hlow := two_zpow_unitExponent_le hn hd (he.trans_lt hu)
    have hhigh := (dyadic_lt_two_zpow hm e).trans_le
      (two_zpow_le (show 53 + e ≤ 52 + unitExponent num den by omega))
    linarith

end Bounds

/-- Magnitude of a finite value; zero for the others. -/
def modulus (x : Binary64) : ℚ := x.numerator / x.denominator

@[simp] theorem modulus_finite (s : Bool) (m : ℕ) (e : ℤ) (h : Canonical m e) :
    (finite s m e h).modulus = m * 2 ^ e := by
  rw [modulus, numerator, denominator, two_zpow_eq_div]
  push_cast [Nat.pow_eq]
  ring

lemma isFinite_iff {x : Binary64} : x.isFinite = true ↔ ∃ s m e h, x = finite s m e h := by
  cases x with
  | finite s m e h => exact ⟨fun _ => ⟨s, m, e, h, rfl⟩, fun _ => rfl⟩
  | _ => simp [isFinite]

lemma modulus_lt {x : Binary64} : x.modulus < 2 ^ (1024 : ℤ) := by
  cases x with
  | nan => simp [modulus, numerator]
  | infinite s => simp [modulus, numerator]
  | finite s m e h =>
    rw [modulus_finite]
    exact (dyadic_lt_two_zpow h.1 e).trans_le (two_zpow_le (by have := h.2.2.1; omega))

/-- A positive quotient becomes the rounded one, unless that is beyond the format. -/
lemma ofRatio_cases (s : Bool) (hn : 0 < num) (hd : 0 < den) :
    (∃ m e h, ofRatio s num den = finite s m e h ∧ (m * 2 ^ e : ℚ) = rounded num den) ∨
      ofRatio s num den = infinite s ∧ 2 ^ (1024 : ℤ) ≤ rounded num den := by
  have heq : ofRatio s num den = if units num den = 2 ^ 53
      then ofParts s (2 ^ 52) (unitExponent num den + 1)
      else ofParts s (units num den) (unitExponent num den) := if_neg hn.ne'
  have hlow : -1074 ≤ unitExponent num den := le_max_right ..
  have hnormal : 2 ^ 52 ≤ units num den ∨ unitExponent num den = -1074 :=
    (lt_or_eq_of_le hlow).imp (two_pow_le_units hn hd) Eq.symm
  rw [heq, rounded]
  split_ifs with hu
  · have hval : ((2 ^ 52 : ℕ) : ℚ) * 2 ^ (unitExponent num den + 1) =
        units num den * 2 ^ unitExponent num den := by
      rw [hu, zpow_add₀ two_ne_zero]
      push_cast
      ring
    unfold ofParts
    split_ifs with hc
    · exact .inl ⟨_, _, hc, rfl, hval⟩
    · have hbig : 972 ≤ unitExponent num den + 1 := by
        by_contra hlt
        exact hc ⟨by decide, by omega, by omega, .inl (by decide)⟩
      exact .inr ⟨rfl, hval ▸ two_zpow_le_dyadic le_rfl (by omega)⟩
  · have hlt : units num den < 2 ^ 53 := lt_of_le_of_ne (units_le_two_pow hd) hu
    unfold ofParts
    split_ifs with hc
    · exact .inl ⟨_, _, hc, rfl, rfl⟩
    · have hbig : 972 ≤ unitExponent num den := by
        by_contra hsmall
        exact hc ⟨hlt, hlow, by omega, hnormal⟩
      exact .inr ⟨rfl, two_zpow_le_dyadic (hnormal.resolve_right (by omega)) (by omega)⟩

/-- Rounding does not make a number of anything else. -/
lemma ofRatio_ne_nan (s : Bool) (num den : ℕ) : ofRatio s num den ≠ nan := by
  unfold ofRatio ofParts
  dsimp only
  split_ifs <;> exact Binary64.noConfusion

/-- A value that bounds a quotient from above bounds the rounded quotient, which is thus finite. -/
theorem ofRatio_le (s : Bool) (hd : 0 < den) {x : Binary64} (hx : x.isFinite = true)
    (h : num / den ≤ x.modulus) :
    (ofRatio s num den).isFinite = true ∧ (ofRatio s num den).modulus ≤ x.modulus := by
  obtain rfl | hn := num.eq_zero_or_pos
  · refine ⟨rfl, ?_⟩
    simpa [ofRatio] using h
  · obtain ⟨t, m, e, hc, rfl⟩ := isFinite_iff.mp hx
    rw [modulus_finite] at h
    have hle := rounded_le hn hd hc.1 hc.2.1 h
    rcases ofRatio_cases s hn hd with ⟨m', e', hc', heq, hval⟩ | ⟨-, hbig⟩
    · rw [heq, modulus_finite, modulus_finite, hval]
      exact ⟨rfl, hle⟩
    · have hlt := modulus_lt (x := finite t m e hc)
      rw [modulus_finite] at hlt
      linarith

/-- A value that bounds a quotient from below bounds the rounded quotient, if that is finite. -/
theorem le_ofRatio (s : Bool) (hd : 0 < den) {x : Binary64} (h : x.modulus ≤ num / den) :
    ofRatio s num den = infinite s ∨ x.modulus ≤ (ofRatio s num den).modulus := by
  obtain rfl | hn := num.eq_zero_or_pos
  · right
    simpa [ofRatio] using h
  · rcases ofRatio_cases s hn hd with ⟨m, e, hc, heq, hval⟩ | ⟨heq, -⟩
    · right
      cases x with
      | finite t m' e' hc' =>
        rw [modulus_finite] at h
        rw [heq, modulus_finite, modulus_finite, hval]
        exact le_rounded hn hd hc'.1 hc'.2.1 h
      | _ =>
        rw [heq, modulus_finite]
        simp only [modulus, numerator, Nat.cast_zero, zero_div]
        positivity
    · exact .inl heq

/-- The largest finite value. -/
def greatest : Binary64 := finite false (2 ^ 53 - 1) 971 (by decide)

lemma isFinite_ofRatio (s : Bool) (hd : 0 < den) (h : num ≤ (2 ^ 53 - 1) * 2 ^ 971 * den) :
    (ofRatio s num den).isFinite = true := by
  refine (ofRatio_le s hd (x := greatest) rfl ?_).1
  rw [greatest, modulus_finite, div_le_iff₀ (by exact_mod_cast hd)]
  exact_mod_cast h

lemma isFinite_of_ne_nan {x : Binary64} (h : x ≠ nan) (hi : x.isInfinite = false) :
    x.isFinite = true := by
  cases x with
  | finite s m e hc => rfl
  | nan => exact absurd rfl h
  | infinite s => cases hi

@[simp] lemma isFinite_neg (x : Binary64) : x.neg.isFinite = x.isFinite := by cases x <;> rfl

/-- A product of finite values is a number, if only an infinite one. -/
lemma mul_ne_nan {x y : Binary64} (hx : x.isFinite = true) (hy : y.isFinite = true) :
    x.mul y ≠ nan := by
  obtain ⟨s, m, e, hc, rfl⟩ := isFinite_iff.mp hx
  obtain ⟨t, n, f, hc', rfl⟩ := isFinite_iff.mp hy
  rw [mul, ofDyadic]
  exact ofRatio_ne_nan _ _ _

/-- Values that take nothing away when they divide. -/
def AtLeastOne (y : Binary64) : Prop := y.isInfinite = true ∨ 1 ≤ y.modulus

lemma atLeastOne_ofNat {n : ℕ} (h : 1 ≤ n) : AtLeastOne (ofNat n) := by
  have hone : (finite false (2 ^ 52) (-52) (by decide)).modulus = 1 := by
    rw [modulus_finite]
    norm_num
  have hle : (finite false (2 ^ 52) (-52) (by decide)).modulus ≤ (n : ℚ) / (1 : ℕ) := by
    rw [hone, Nat.cast_one, div_one]
    exact_mod_cast h
  rcases le_ofRatio false one_pos hle with hi | hfin
  · exact .inl (by rw [ofNat, hi]; rfl)
  · exact .inr (hone ▸ hfin)

/-- The exact quotient of two finite values, in the form in which it is rounded. -/
lemma scaled_div (m n : ℕ) (e f : ℤ) :
    ((m * Nat.pow 2 (e - f).toNat : ℕ) : ℚ) / (n * Nat.pow 2 (-(e - f)).toNat : ℕ) =
      m * 2 ^ e / (n * 2 ^ f) := by
  rw [mul_div_mul_comm, ← zpow_sub₀ two_ne_zero, two_zpow_eq_div, ← mul_div_mul_comm]
  push_cast [Nat.pow_eq]
  rfl

/-- Division by what is at least one stays finite. -/
theorem isFinite_div {x y : Binary64} (hx : x.isFinite = true) (hy : AtLeastOne y) :
    (x.div y).isFinite = true := by
  obtain ⟨s, m, e, hc, rfl⟩ := isFinite_iff.mp hx
  cases y with
  | nan => exact absurd hy (by norm_num [AtLeastOne, isInfinite, modulus, numerator])
  | infinite t => rfl
  | finite t n f hc' =>
    have hn : 1 ≤ (n * 2 ^ f : ℚ) :=
      modulus_finite t n f hc' ▸ hy.resolve_left (by simp [isInfinite])
    have hpos : 0 < n := by
      refine Nat.pos_of_ne_zero fun h0 => ?_
      rw [h0, Nat.cast_zero, zero_mul] at hn
      linarith
    have hden : 0 < n * Nat.pow 2 (-(e - f)).toNat := Nat.mul_pos hpos (Nat.pow_pos two_pos)
    rw [div, if_neg hpos.ne']
    refine (ofRatio_le _ hden hx ?_).1
    rw [scaled_div, modulus_finite]
    exact div_le_self (by positivity) hn

end PaymentDrill.Binary64
