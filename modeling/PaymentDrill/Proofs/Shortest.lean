import Mathlib.Data.Nat.Cast.Field
import Mathlib.Data.Nat.Cast.Order.Field
import PaymentDrill.Decimal.Layout
import PaymentDrill.Proofs.Nearest

/-!
# Decimals that read back

A decimal number stands for an exact quantity, and reading it is rounding that quantity.
The search for a short decimal tries coarse grids first and takes nothing that does not read
back; the finest grid holds the value itself, so the search cannot fail.
-/
namespace PaymentDrill

open Binary64

namespace Binary64

variable {s t : Bool} {q : ℚ} {x : Binary64}

/-- The sign has no part in the rounding. -/
lemma nearest_sign (hq : 0 ≤ q) (hfin : (nearest s q).isFinite = true) :
    (nearest t q).isFinite = true ∧ (nearest t q).modulus = (nearest s q).modulus := by
  obtain ⟨hfin', hle⟩ := nearest_mono (s := t) hq le_rfl hfin
  exact ⟨hfin', hle.antisymm (nearest_mono hq le_rfl hfin').2⟩

end Binary64

namespace Decimal

/-- The quantity that a decimal stands for. -/
def value (d : Decimal) : ℚ := d.digits * 10 ^ d.exponent

lemma value_nonneg (d : Decimal) : 0 ≤ d.value := by
  unfold value
  positivity

lemma ten_zpow_eq_div (e : ℤ) : (10 : ℚ) ^ e = 10 ^ e.toNat / 10 ^ (-e).toNat := by
  rw [← zpow_natCast, ← zpow_natCast, ← zpow_sub₀ (by norm_num), Int.toNat_sub_toNat_neg]

/-- Reading rounds once. -/
theorem toBinary64_eq_nearest (s : Bool) (d : Decimal) : d.toBinary64 s = nearest s d.value := by
  have hval : ((d.digits * Nat.pow 10 d.exponent.toNat : ℕ) : ℚ) /
      (Nat.pow 10 (-d.exponent).toNat : ℕ) = d.value := by
    rw [value, ten_zpow_eq_div, ← mul_div_assoc]
    push_cast [Nat.pow_eq]
    rfl
  rw [← hval]
  exact ofRatio_eq_nearest s _ (Nat.pow_pos (by decide))

/-- The leading digit tells how large a decimal is. -/
lemma leading_bounds {d : Decimal} (hd : d.digits ≠ 0) :
    (10 : ℚ) ^ d.leading ≤ d.value ∧ d.value < 10 ^ (d.leading + 1) := by
  have hpos : 0 < (natText d.digits).length := Nat.length_toDigits_pos
  have hlt : d.digits < 10 ^ (natText d.digits).length :=
    (Nat.length_toDigits_le_iff (by decide) hpos).mp le_rfl
  have hge : 10 ^ ((natText d.digits).length - 1) ≤ d.digits := by
    rcases Nat.eq_zero_or_pos ((natText d.digits).length - 1) with hone | hmore
    · rw [hone, pow_zero]
      exact Nat.one_le_iff_ne_zero.mpr hd
    · by_contra hsmall
      have hle := (Nat.length_toDigits_le_iff (by decide) hmore).mpr (not_le.mp hsmall)
      change (natText d.digits).length ≤ _ at hle
      omega
  have hexp : (10 : ℚ) ^ d.leading =
      (10 ^ ((natText d.digits).length - 1) : ℕ) * 10 ^ d.exponent := by
    rw [leading, zpow_add₀ (by norm_num), ← Nat.cast_one, ← Nat.cast_sub hpos, zpow_natCast]
    norm_cast
  have hexp' : (10 : ℚ) ^ (d.leading + 1) =
      (10 ^ (natText d.digits).length : ℕ) * 10 ^ d.exponent := by
    rw [leading, sub_add_eq_add_sub, sub_add_cancel, zpow_add₀ (by norm_num), zpow_natCast]
    norm_cast
  rw [hexp, hexp', value]
  constructor
  · gcongr
  · gcongr

variable {x : Binary64} {tie : Tie} {d : Decimal}

lemma isFinite_magnitude (hx : x.isFinite = true) : (magnitude x).isFinite = true := by
  obtain ⟨s, m, e, hc, rfl⟩ := isFinite_iff.mp hx
  rfl

lemma modulus_magnitude (x : Binary64) : (magnitude x).modulus = x.modulus := by
  cases x <;> rfl

lemma magnitude_eq_nearest (hx : x.isFinite = true) : magnitude x = nearest false x.modulus := by
  have hsign : (magnitude x).isNegative = false := by cases x <;> rfl
  rw [← modulus_magnitude, ← hsign]
  exact (nearest_modulus (isFinite_magnitude hx)).symm

/-- What reads back as the value is what reads back as its magnitude, with the sign in front. -/
lemma toBinary64_eq_iff (hx : x.isFinite = true) :
    d.toBinary64 x.isNegative = x ↔ d.toBinary64 false = magnitude x := by
  have hsign : (magnitude x).isNegative = false := by cases x <;> rfl
  rw [toBinary64_eq_nearest, toBinary64_eq_nearest]
  constructor
  · intro h
    obtain ⟨hfin, hmodulus⟩ := nearest_sign (t := false) d.value_nonneg (h.symm ▸ hx)
    refine eq_of_modulus_eq hfin (isFinite_magnitude hx) ?_ ?_
    · rw [isNegative_nearest, hsign]
    · rw [hmodulus, h, modulus_magnitude]
  · intro h
    obtain ⟨hfin, hmodulus⟩ := nearest_sign (t := x.isNegative) d.value_nonneg
      (h.symm ▸ isFinite_magnitude hx)
    refine eq_of_modulus_eq hfin hx (isNegative_nearest _ _) ?_
    rw [hmodulus, h, modulus_magnitude]

variable {num den : ℕ} {k : ℤ}

/-- A hit is one of the two neighbours, and it reads back. -/
lemma reads_of_onGrid (h : onGrid tie x num den k = some d) :
    d.exponent = k ∧ d.toBinary64 false = x := by
  unfold onGrid at h
  dsimp only at h
  split_ifs at h with hlow hboth hhigh
  · obtain rfl := Option.some.inj h
    exact ⟨rfl, hboth.1⟩
  · obtain rfl := Option.some.inj h
    exact ⟨rfl, hlow⟩
  · obtain rfl := Option.some.inj h
    exact ⟨rfl, hhigh⟩

/-- A search whose last grid holds the number finds something that reads back. -/
lemma reads_of_search (last : (search tie x num den 0 k).toBinary64 false = x) (grids : ℕ) :
    (search tie x num den grids k).toBinary64 false = x := by
  induction grids with
  | zero => exact last
  | succ grids ih =>
    rw [search]
    split
    · rename_i d hd
      exact (reads_of_onGrid hd).2
    · exact ih

/-- A dyadic number is a decimal of its own: the powers of two that it is divided by divide powers
of ten. -/
lemma value_search_zero {s : Bool} {m : ℕ} {e : ℤ} (hc : Canonical m e) :
    (search tie x (finite s m e hc).numerator (finite s m e hc).denominator 0 (min e 0)).value =
      (finite s m e hc).modulus := by
  have hzero : (min e 0).toNat = 0 := by omega
  have htoNat : (-min e 0).toNat = (-e).toNat := by omega
  have hten : (10 : ℚ) ^ min e 0 = 1 / (10 ^ (-e).toNat : ℕ) := by
    rw [ten_zpow_eq_div, hzero, htoNat, pow_zero, Nat.cast_pow, Nat.cast_ofNat]
  have hdvd : 2 ^ (-e).toNat ∣ m * 2 ^ e.toNat * 10 ^ (-e).toNat := by
    rw [show 10 = 2 * 5 from rfl, Nat.mul_pow]
    exact (Dvd.intro _ rfl).mul_left _
  have hpos : ((10 ^ (-e).toNat : ℕ) : ℚ) ≠ 0 := by positivity
  rw [search, value, modulus, numerator, denominator, hten]
  simp only [Nat.pow_eq, hzero, htoNat, pow_zero, mul_one]
  rw [Nat.cast_div hdvd (by positivity), Nat.cast_mul _ (10 ^ (-e).toNat), mul_one_div,
    div_right_comm, mul_div_cancel_right₀ _ hpos]

/-- The shortest digits read back, zero included, and the sign is the only thing that is added. -/
theorem shortest_reads (tie : Tie) (hx : x.isFinite = true) :
    (shortest tie x).toBinary64 x.isNegative = x := by
  obtain ⟨s, m, e, hc, rfl⟩ := isFinite_iff.mp hx
  rw [shortest]
  split_ifs with hm
  · have hmodulus : (finite s m e hc).modulus = 0 := by
      rw [modulus_finite, hm, Nat.cast_zero, zero_mul]
    rw [toBinary64_eq_nearest, value, Nat.cast_zero, zero_mul, ← hmodulus]
    exact nearest_modulus hx
  · refine (toBinary64_eq_iff hx).mpr (reads_of_search ?_ _)
    rw [toBinary64_eq_nearest, value_search_zero hc]
    exact (magnitude_eq_nearest hx).symm

/-- What lies between two quantities that are rounded to the same value is rounded to it as well. -/
lemma nearest_between {a b c : ℚ} {s : Bool} (ha : 0 ≤ a) (hac : a ≤ c) (hcb : c ≤ b)
    (hx : x.isFinite = true) (hax : nearest s a = x) (hbx : nearest s b = x) : nearest s c = x := by
  obtain ⟨hfin, hle⟩ := nearest_mono (s := s) (ha.trans hac) hcb (hbx.symm ▸ hx)
  obtain ⟨-, hge⟩ := nearest_mono (s := s) ha hac hfin
  rw [hbx] at hle
  rw [hax] at hge
  refine eq_of_modulus_eq hfin hx ?_ (hle.antisymm hge)
  rw [isNegative_nearest, ← hbx, isNegative_nearest]

/-- A quantity twice as large as a value is never rounded to it. -/
lemma nearest_ne_of_two_mul_le {q : ℚ} {s : Bool} (hpos : 0 < x.modulus)
    (hq : 2 * x.modulus ≤ q) : nearest s q ≠ x := by
  rintro rfl
  have hq0 : 0 < q := by linarith
  have hfin : (nearest s q).isFinite = true := by
    rcases nearest_cases s hq0 with ⟨hfin, -⟩ | ⟨hinf, -⟩
    · exact hfin
    · rw [hinf] at hpos
      simp [modulus, numerator] at hpos
  obtain ⟨t, m, e, hc, hx⟩ := isFinite_iff.mp hfin
  have htwice : 2 * (nearest s q).modulus = m * 2 ^ (e + 1) := by
    rw [hx, modulus_finite, zpow_add_one₀ two_ne_zero]
    ring
  by_cases he : e + 1 ≤ 971
  · -- the double is a value of its own, and nearer
    obtain ⟨hfin', hmodulus⟩ := nearest_dyadic s hc.1 (Int.le_add_one hc.2.1) he
    have hnear := nearest_nearest hq0.le hfin hfin'
    rw [hmodulus, ← htwice, abs_of_nonpos (by linarith), abs_of_nonpos (by linarith)] at hnear
    linarith
  · -- the double is beyond the format
    have hm : 2 ^ 52 ≤ m := hc.2.2.2.resolve_right (by omega)
    have htop : (2 : ℚ) ^ (1024 : ℤ) ≤ m * 2 ^ (e + 1) := two_zpow_le_dyadic hm (by omega)
    rw [nearest_of_ge s (htop.trans (htwice ▸ hq))] at hfin
    cases hfin

/-- The number is between its two neighbours on a grid. -/
lemma neighbours (num : ℕ) (hd : 0 < den) (k : ℤ) :
    (⟨num * 10 ^ (-k).toNat / (den * 10 ^ k.toNat), k⟩ : Decimal).value ≤ num / den ∧
      (num / den : ℚ) <
        (⟨num * 10 ^ (-k).toNat / (den * 10 ^ k.toNat) + 1, k⟩ : Decimal).value := by
  have hD : 0 < den * 10 ^ k.toNat := by positivity
  have hval : (num / den : ℚ) =
      (num * 10 ^ (-k).toNat : ℕ) / (den * 10 ^ k.toNat : ℕ) * 10 ^ k := by
    rw [ten_zpow_eq_div]
    push_cast
    field_simp
  generalize num * 10 ^ (-k).toNat = n at hval ⊢
  generalize den * 10 ^ k.toNat = d at hD hval ⊢
  have hD' : (0 : ℚ) < d := by exact_mod_cast hD
  have hlow : ((n / d : ℕ) : ℚ) ≤ n / d := Nat.cast_div_le
  have hhigh : (n / d : ℚ) < (n / d + 1 : ℕ) := by
    rw [div_lt_iff₀ hD']
    exact_mod_cast Nat.lt_mul_of_div_lt (Nat.lt_succ_self _) hD
  rw [hval, value, value]
  constructor <;> gcongr

/-- Where neither neighbour reads back, nothing on the grid does. -/
lemma not_reads_of_onGrid (hd : 0 < den) (hx : x.isFinite = true)
    (hread : nearest false (num / den) = x) (h : onGrid tie x num den k = none) (n : ℕ) :
    (⟨n, k⟩ : Decimal).toBinary64 false ≠ x := by
  obtain ⟨hlow, hhigh⟩ := neighbours num hd k
  generalize hlow' : num * 10 ^ (-k).toNat / (den * 10 ^ k.toNat) = low at hlow hhigh
  have hmiss : (⟨low, k⟩ : Decimal).toBinary64 false ≠ x ∧
      (⟨low + 1, k⟩ : Decimal).toBinary64 false ≠ x := by
    unfold onGrid at h
    simp only [Nat.pow_eq, hlow'] at h
    split_ifs at h with h₁ h₂ h₃
    exact ⟨h₁, h₃⟩
  have hgrid {a b : ℕ} (hab : a ≤ b) : (⟨a, k⟩ : Decimal).value ≤ (⟨b, k⟩ : Decimal).value := by
    unfold value
    gcongr
  rw [toBinary64_eq_nearest, toBinary64_eq_nearest] at hmiss
  rw [toBinary64_eq_nearest]
  intro hn
  rcases le_or_gt n low with hle | hgt
  · exact hmiss.1 (nearest_between (value_nonneg _) (hgrid hle) hlow hx hn hread)
  · exact hmiss.2 (nearest_between (by positivity) hhigh.le (hgrid hgt) hx hread hn)

/-- The search stops at the coarsest grid that has something to read back. -/
lemma not_reads_of_search (tie : Tie) (k : ℤ) (hd : 0 < den) (hx : x.isFinite = true)
    (hread : nearest false (num / den) = x) (grids : ℕ) :
    k ≤ (search tie x num den grids k).exponent ∧
      ∀ j, (search tie x num den grids k).exponent < j → j ≤ k + grids → ∀ n : ℕ,
        (⟨n, j⟩ : Decimal).toBinary64 false ≠ x := by
  induction grids with
  | zero =>
    refine ⟨le_rfl, fun j hj hle => ?_⟩
    change k < j at hj
    omega
  | succ grids ih =>
    rw [search]
    split
    · rename_i c hc
      have hexp := (reads_of_onGrid hc).1
      refine ⟨by omega, fun j hj hle => ?_⟩
      omega
    · rename_i hnone
      refine ⟨ih.1, fun j hj hle n => ?_⟩
      by_cases htop : j = k + (grids + 1 : ℕ)
      · rw [htop]
        exact not_reads_of_onGrid hd hx hread hnone n
      · exact ih.2 j hj (by omega) n

/-- The powers of ten that the search starts from, against the powers of two of the format. -/
def StartsHigh (i : ℕ) : Prop :=
  2 ^ ((i : ℤ) - 1072).toNat * 10 ^ (-(((i : ℤ) - 1073) * 30103 / 100000 + 2)).toNat ≤
    10 ^ (((i : ℤ) - 1073) * 30103 / 100000 + 2).toNat * 2 ^ (-((i : ℤ) - 1072)).toNat

instance (i : ℕ) : Decidable (StartsHigh i) := inferInstanceAs (Decidable (_ ≤ _))

lemma startsHigh : ∀ i < 2098, StartsHigh i := by decide +kernel

/-- The search starts above every grid that could have something to read back. -/
lemma two_zpow_le_leadingBound {b : ℤ} (hb : leadingBit num den = b) (hlow : -1074 ≤ b)
    (hhigh : b < 1024) : (2 : ℚ) ^ (b + 2) ≤ 10 ^ (leadingBound num den + 1) := by
  have hcheck := startsHigh (b + 1074).toNat (by omega)
  have hindex : ((b + 1074).toNat : ℤ) = b + 1074 := Int.toNat_of_nonneg (by omega)
  have htwo : ((b + 1074).toNat : ℤ) - 1072 = b + 2 := by omega
  have hten : (((b + 1074).toNat : ℤ) - 1073) * 30103 / 100000 + 2 = leadingBound num den + 1 := by
    rw [leadingBound, hb]
    omega
  unfold StartsHigh at hcheck
  rw [htwo, hten] at hcheck
  rw [two_zpow_eq_div, ten_zpow_eq_div, div_le_div_iff₀ (by positivity) (by positivity)]
  exact_mod_cast hcheck

/-- The leading bit of a finite value is one of the format. -/
lemma leadingBit_bounds (hx : x.isFinite = true) (hpos : 0 < x.modulus) :
    x.modulus < 2 ^ (leadingBit x.numerator x.denominator + 1) ∧
      -1074 ≤ leadingBit x.numerator x.denominator ∧
        leadingBit x.numerator x.denominator < 1024 := by
  have hden : 0 < x.denominator := by
    obtain ⟨s, m, e, hc, rfl⟩ := isFinite_iff.mp hx
    exact Nat.pow_pos two_pos
  have hnum : 0 < x.numerator := by
    refine Nat.pos_of_ne_zero fun hzero => hpos.ne' ?_
    rw [modulus, hzero, Nat.cast_zero, zero_div]
  have hlt : x.modulus < 2 ^ (leadingBit x.numerator x.denominator + 1) :=
    lt_two_zpow_leadingBit hden
  have hle : 2 ^ leadingBit x.numerator x.denominator ≤ x.modulus :=
    two_zpow_leadingBit_le hnum hden
  have hleast : (2 : ℚ) ^ (-1074 : ℤ) ≤ x.modulus := by
    obtain ⟨s, m, e, hc, rfl⟩ := isFinite_iff.mp hx
    rw [modulus_finite] at hpos ⊢
    have hm : (1 : ℚ) ≤ m := by
      exact_mod_cast Nat.pos_of_ne_zero fun hm => hpos.ne' (by rw [hm, Nat.cast_zero, zero_mul])
    exact (two_zpow_le hc.2.1).trans (le_mul_of_one_le_left (two_zpow_pos e).le hm)
  have hlow := (zpow_lt_zpow_iff_right₀ (by norm_num)).mp (hleast.trans_lt hlt)
  have hhigh := (zpow_lt_zpow_iff_right₀ (by norm_num)).mp (hle.trans_lt modulus_lt)
  exact ⟨hlt, by omega, hhigh⟩

/-- Above the grids of the search, what is not zero is far too large. -/
lemma not_reads_above (hx : x.isFinite = true) (hpos : 0 < x.modulus) {j : ℤ}
    (hj : leadingBound x.numerator x.denominator < j) (n : ℕ) :
    (⟨n, j⟩ : Decimal).toBinary64 false ≠ x := by
  rw [toBinary64_eq_nearest, value]
  rcases n.eq_zero_or_pos with rfl | hn
  · rintro rfl
    simp at hpos
  · obtain ⟨hlt, hlow, hhigh⟩ := leadingBit_bounds hx hpos
    have htwice : (2 : ℚ) ^ (leadingBit x.numerator x.denominator + 2) =
        2 * 2 ^ (leadingBit x.numerator x.denominator + 1) := by
      rw [show (2 : ℤ) = 1 + 1 from rfl, ← add_assoc, zpow_add_one₀ two_ne_zero, mul_comm]
    refine nearest_ne_of_two_mul_le hpos ?_
    calc 2 * x.modulus
        ≤ 2 ^ (leadingBit x.numerator x.denominator + 2) := by rw [htwice]; gcongr
      _ ≤ 10 ^ (leadingBound x.numerator x.denominator + 1) :=
          two_zpow_le_leadingBound rfl hlow hhigh
      _ ≤ 10 ^ j := zpow_le_zpow_right₀ (by norm_num) hj
      _ ≤ n * 10 ^ j := le_mul_of_one_le_left (by positivity) (by exact_mod_cast hn)

/-- Nothing on a coarser grid reads back. -/
theorem exponent_le_shortest (tie : Tie) (hx : x.isFinite = true) (hpos : 0 < x.modulus)
    (hd : d.toBinary64 x.isNegative = x) : d.exponent ≤ (shortest tie x).exponent := by
  rw [toBinary64_eq_iff hx] at hd
  have hread := magnitude_eq_nearest hx
  have hfin := isFinite_magnitude hx
  obtain ⟨s, m, e, hc, rfl⟩ := isFinite_iff.mp hx
  have hm : m ≠ 0 := by
    rintro rfl
    simp at hpos
  have hden : 0 < (finite s m e hc).denominator := Nat.pow_pos two_pos
  rw [shortest, if_neg hm]
  dsimp only
  by_contra hlt
  rw [not_le] at hlt
  obtain ⟨-, hgrids⟩ := not_reads_of_search tie (min e 0) hden hfin hread.symm
    (leadingBound (finite s m e hc).numerator (finite s m e hc).denominator - min e 0).toNat
  by_cases htop : d.exponent ≤ min e 0 +
      (leadingBound (finite s m e hc).numerator (finite s m e hc).denominator - min e 0).toNat
  · exact hgrids _ hlt htop d.digits hd
  · have hpos' : 0 < (magnitude (finite s m e hc)).modulus := (modulus_magnitude _).symm ▸ hpos
    refine not_reads_above hfin hpos' ?_ d.digits hd
    change leadingBound (finite s m e hc).numerator (finite s m e hc).denominator < d.exponent
    omega

/-- Of all decimals that read back, none has fewer digits: a power of ten would stand between it and
the shortest one, on a coarser grid than that. -/
theorem length_shortest_le (tie : Tie) (hx : x.isFinite = true) (hpos : 0 < x.modulus)
    (hd : d.toBinary64 x.isNegative = x) :
    (natText (shortest tie x).digits).length ≤ (natText d.digits).length := by
  have hshortest := shortest_reads tie hx
  have hcoarsest (c : Decimal) := exponent_le_shortest (d := c) tie hx hpos
  generalize shortest tie x = b at hshortest hcoarsest ⊢
  have hdigits {c : Decimal} (hc : c.toBinary64 x.isNegative = x) : c.digits ≠ 0 := by
    intro hzero
    rw [toBinary64_eq_nearest, value, hzero, Nat.cast_zero, zero_mul] at hc
    rw [← hc, modulus_nearest_zero] at hpos
    exact lt_irrefl _ hpos
  by_contra hfewer
  rw [not_le] at hfewer
  have hfirst : 0 < (natText d.digits).length := Nat.length_toDigits_pos
  have hexp := hcoarsest d hd
  have hbelow : d.value ≤ 10 ^ b.leading :=
    (leading_bounds (hdigits hd)).2.le.trans
      (zpow_le_zpow_right₀ (by norm_num) (by unfold leading; omega))
  have habove : 10 ^ b.leading ≤ b.value := (leading_bounds (hdigits hshortest)).1
  have hpower : (⟨1, b.leading⟩ : Decimal).toBinary64 x.isNegative = x := by
    rw [toBinary64_eq_nearest] at hd hshortest ⊢
    refine nearest_between d.value_nonneg ?_ ?_ hx hd hshortest
    · simpa [value] using hbelow
    · simpa [value] using habove
  have hle := hcoarsest _ hpower
  change b.leading ≤ b.exponent at hle
  unfold leading at hle
  omega

end Decimal

end PaymentDrill
