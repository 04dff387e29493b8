import Mathlib.Data.Rat.Lemmas
import PaymentDrill.Proofs.Rounding

/-!
# Nearest values

Rounding as a function of an exact magnitude. How the magnitude is written as a quotient
makes no difference, a larger one is never rounded to less, and what the format holds is
rounded to itself. Sums, products and quotients of finite values are such nearest values,
and the order of finite values is the order of the numbers that they stand for.
-/
namespace PaymentDrill.Binary64

variable {num den num' den' : ℕ}

lemma roundDiv_mul_left {k : ℕ} (hk : 0 < k) (num den : ℕ) :
    roundDiv (k * num) (k * den) = roundDiv num den := by
  have hlt : 2 * (k * (num % den)) < k * den ↔ 2 * (num % den) < den := by
    rw [mul_left_comm]
    exact Nat.mul_lt_mul_left hk
  have heq : 2 * (k * (num % den)) = k * den ↔ 2 * (num % den) = den := by
    rw [mul_left_comm]
    exact Nat.mul_right_inj hk.ne'
  simp only [roundDiv, Nat.mul_div_mul_left _ _ hk, Nat.mul_mod_mul_left, hlt, heq]

lemma roundDiv_congr (hd : 0 < den) (hd' : 0 < den') (h : (num / den : ℚ) = num' / den') :
    roundDiv num den = roundDiv num' den' := by
  have hcross : den' * num = den * num' := by
    rw [div_eq_div_iff (by positivity) (by positivity), mul_comm, mul_comm (num' : ℚ)] at h
    exact_mod_cast h
  calc roundDiv num den
      = roundDiv (den' * num) (den' * den) := (roundDiv_mul_left hd' num den).symm
    _ = roundDiv (den * num') (den * den') := by rw [hcross, mul_comm den' den]
    _ = roundDiv num' den' := roundDiv_mul_left hd num' den'

/-- Only a half could be rounded to either side, and it is always rounded to the same one. -/
lemma roundDiv_mono (hd : 0 < den) (hd' : 0 < den') (h : (num / den : ℚ) ≤ num' / den') :
    roundDiv num den ≤ roundDiv num' den' := by
  by_contra hlt
  have hstep : (roundDiv num' den' : ℚ) + 1 ≤ roundDiv num den := by
    exact_mod_cast not_le.mp hlt
  have hnear := (abs_le.mp (roundDiv_near num hd)).2
  have hnear' := (abs_le.mp (roundDiv_near num' hd')).1
  have heq : (num / den : ℚ) = num' / den' := by linarith
  exact hlt (roundDiv_congr hd hd' heq).le

lemma leadingBit_mono (hn : 0 < num) (hd : 0 < den) (hd' : 0 < den')
    (h : (num / den : ℚ) ≤ num' / den') : leadingBit num den ≤ leadingBit num' den' := by
  have hlt : (2 : ℚ) ^ leadingBit num den < 2 ^ (leadingBit num' den' + 1) :=
    (two_zpow_leadingBit_le hn hd).trans_lt (h.trans_lt (lt_two_zpow_leadingBit hd'))
  have hexp := (zpow_lt_zpow_iff_right₀ (by norm_num)).mp hlt
  omega

lemma unitExponent_mono (hn : 0 < num) (hd : 0 < den) (hd' : 0 < den')
    (h : (num / den : ℚ) ≤ num' / den') : unitExponent num den ≤ unitExponent num' den' := by
  have hbit := leadingBit_mono hn hd hd' h
  unfold unitExponent
  omega

lemma units_mono (hd : 0 < den) (hd' : 0 < den')
    (hunit : unitExponent num den = unitExponent num' den')
    (h : (num / den : ℚ) ≤ num' / den') : units num den ≤ units num' den' := by
  have hscaled (n d : ℕ) (e : ℤ) : ((n * 2 ^ (-e).toNat : ℕ) : ℚ) / (d * 2 ^ e.toNat : ℕ) =
      n / d / 2 ^ e := by
    rw [two_zpow_eq_div, div_div_div_eq]
    push_cast
    rfl
  unfold units
  refine roundDiv_mono (by positivity) (by positivity) ?_
  rw [hscaled, hscaled, hunit]
  gcongr

lemma num_pos_of_le (hn : 0 < num) (hd : 0 < den) (h : (num / den : ℚ) ≤ num' / den') :
    0 < num' := by
  refine Nat.pos_of_ne_zero fun hzero => ?_
  have hpos : (0 : ℚ) < num / den := by positivity
  rw [hzero, Nat.cast_zero, zero_div] at h
  linarith

/-- A larger quotient is not rounded to less. Where the units differ, a power of two that both units
divide stands between the quotients. -/
theorem rounded_mono (hn : 0 < num) (hd : 0 < den) (hd' : 0 < den')
    (h : (num / den : ℚ) ≤ num' / den') : rounded num den ≤ rounded num' den' := by
  have hn' := num_pos_of_le hn hd h
  rcases (unitExponent_mono hn hd hd' h).eq_or_lt with hunit | hunit
  · have hunits : (units num den : ℚ) ≤ units num' den' := by
      exact_mod_cast units_mono hd hd' hunit h
    rw [rounded, rounded, hunit]
    gcongr
  · have hlow : -1074 < unitExponent num' den' := (le_max_right _ _).trans_lt hunit
    have hbelow : (num / den : ℚ) ≤ (2 ^ 52 : ℕ) * 2 ^ unitExponent num' den' := by
      refine (lt_two_zpow_leadingBit hd).le.trans ?_
      calc (2 : ℚ) ^ (leadingBit num den + 1)
          ≤ 2 ^ (52 + unitExponent num' den') :=
            two_zpow_le (by unfold unitExponent at hunit ⊢; omega)
        _ = (2 ^ 52 : ℕ) * 2 ^ unitExponent num' den' := by
            rw [zpow_add₀ two_ne_zero]
            norm_cast
    calc rounded num den
        ≤ (2 ^ 52 : ℕ) * 2 ^ unitExponent num' den' :=
          rounded_le hn hd (by decide) hlow.le hbelow
      _ ≤ rounded num' den' := by
          rw [rounded]
          gcongr
          exact two_pow_le_units hn' hd' hlow

section Neighbours

variable {m : ℕ} {e : ℤ}

lemma rounded_near (num : ℕ) (hd : 0 < den) :
    |rounded num den - num / den| ≤ 2 ^ unitExponent num den / 2 := by
  have hpos := two_zpow_pos (unitExponent num den)
  have heq : rounded num den - num / den =
      (units num den - num / den / 2 ^ unitExponent num den) * 2 ^ unitExponent num den := by
    rw [rounded, sub_mul, div_mul_cancel₀ _ hpos.ne']
  rw [heq, abs_mul, abs_of_pos hpos]
  linarith [mul_le_mul_of_nonneg_right (units_near num hd) hpos.le]

/-- What the format holds is a number of units, or it is too small to come near the quotient. -/
lemma dyadic_cases (hn : 0 < num) (hd : 0 < den) (hm : m < 2 ^ 53) (he : -1074 ≤ e) :
    (∃ k : ℕ, (m * 2 ^ e : ℚ) = k * 2 ^ unitExponent num den) ∨
      (m * 2 ^ e : ℚ) < (2 ^ 52 : ℕ) * 2 ^ unitExponent num den ∧
        (2 ^ 52 : ℕ) * 2 ^ unitExponent num den ≤ (num / den : ℚ) := by
  rcases le_or_gt (unitExponent num den) e with hu | hu
  · exact .inl ⟨_, dyadic_eq hu m⟩
  · have hpow :
        (2 ^ 52 : ℕ) * (2 : ℚ) ^ unitExponent num den = 2 ^ (52 + unitExponent num den) := by
      rw [zpow_add₀ two_ne_zero]
      norm_cast
    rw [hpow]
    refine .inr ⟨?_, two_zpow_unitExponent_le hn hd (he.trans_lt hu)⟩
    exact (dyadic_lt_two_zpow hm e).trans_le (two_zpow_le (by omega))

/-- A value below a quotient that is rounded up is a whole unit below the rounded quotient. -/
lemma add_unit_le_rounded (hn : 0 < num) (hd : 0 < den) (hm : m < 2 ^ 53) (he : -1074 ≤ e)
    (h : (m * 2 ^ e : ℚ) ≤ num / den) (hup : (num / den : ℚ) < rounded num den) :
    (m * 2 ^ e : ℚ) + 2 ^ unitExponent num den ≤ rounded num den := by
  have hpos := two_zpow_pos (unitExponent num den)
  have hunits (k : ℕ) (hk : (k * 2 ^ unitExponent num den : ℚ) < rounded num den) :
      (k * 2 ^ unitExponent num den : ℚ) + 2 ^ unitExponent num den ≤ rounded num den := by
    rw [rounded, mul_lt_mul_iff_left₀ hpos] at hk
    have hsucc : (k : ℚ) + 1 ≤ units num den := by exact_mod_cast hk
    rw [rounded]
    linarith [mul_le_mul_of_nonneg_right hsucc hpos.le]
  rcases dyadic_cases hn hd hm he with ⟨k, hk⟩ | ⟨hsmall, hlow⟩
  · rw [hk] at h ⊢
    exact hunits k (h.trans_lt hup)
  · linarith [hunits (2 ^ 52) (hlow.trans_lt hup)]

lemma rounded_add_unit_le (hn : 0 < num) (hd : 0 < den) (hm : m < 2 ^ 53) (he : -1074 ≤ e)
    (h : (num / den : ℚ) ≤ m * 2 ^ e) (hdown : rounded num den < num / den) :
    rounded num den + 2 ^ unitExponent num den ≤ m * 2 ^ e := by
  have hpos := two_zpow_pos (unitExponent num den)
  rcases dyadic_cases hn hd hm he with ⟨k, hk⟩ | ⟨hsmall, hlow⟩
  · rw [hk] at h ⊢
    have hlt := hdown.trans_le h
    rw [rounded, mul_lt_mul_iff_left₀ hpos] at hlt
    have hsucc : (units num den : ℚ) + 1 ≤ k := by exact_mod_cast hlt
    rw [rounded]
    linarith [mul_le_mul_of_nonneg_right hsucc hpos.le]
  · exact absurd (h.trans_lt (hsmall.trans_le hlow)) (lt_irrefl _)

/-- Nothing that the format holds is nearer to a quotient than the rounded quotient. -/
theorem rounded_nearest (hn : 0 < num) (hd : 0 < den) (hm : m < 2 ^ 53) (he : -1074 ≤ e) :
    |rounded num den - num / den| ≤ |(m * 2 ^ e : ℚ) - num / den| := by
  have hnear := abs_le.mp (rounded_near num hd)
  rcases le_total (m * 2 ^ e : ℚ) (num / den) with h | h
  · have hle := le_rounded hn hd hm he h
    rw [abs_of_nonpos (sub_nonpos.mpr h), abs_le]
    refine ⟨by linarith, ?_⟩
    rcases le_or_gt (rounded num den) (num / den) with hdown | hup
    · linarith
    · linarith [add_unit_le_rounded hn hd hm he h hup]
  · have hle := rounded_le hn hd hm he h
    rw [abs_of_nonneg (sub_nonneg.mpr h), abs_le]
    refine ⟨?_, by linarith⟩
    rcases lt_or_ge (rounded num den) (num / den) with hdown | hup
    · linarith [rounded_add_unit_le hn hd hm he h hdown]
    · linarith

end Neighbours

lemma ofRatio_eq (s : Bool) (hn : 0 < num) (den : ℕ) : ofRatio s num den =
    if units num den = 2 ^ 53 then ofParts s (2 ^ 52) (unitExponent num den + 1)
    else ofParts s (units num den) (unitExponent num den) := if_neg hn.ne'

theorem ofRatio_congr (s : Bool) (hd : 0 < den) (hd' : 0 < den')
    (h : (num / den : ℚ) = num' / den') : ofRatio s num den = ofRatio s num' den' := by
  rcases num.eq_zero_or_pos with rfl | hn
  · have hzero : num' = 0 := by
      rw [Nat.cast_zero, zero_div, eq_comm, div_eq_zero_iff] at h
      exact_mod_cast h.resolve_right (by positivity)
    rw [hzero]
    rfl
  · have hn' := num_pos_of_le hn hd h.le
    have hunit : unitExponent num den = unitExponent num' den' :=
      (unitExponent_mono hn hd hd' h.le).antisymm (unitExponent_mono hn' hd' hd h.ge)
    have hunits : units num den = units num' den' :=
      (units_mono hd hd' hunit h.le).antisymm (units_mono hd' hd hunit.symm h.ge)
    rw [ofRatio_eq s hn, ofRatio_eq s hn', hunit, hunits]

/-- The value nearest to a magnitude, ties to even. -/
def nearest (negative : Bool) (q : ℚ) : Binary64 := ofRatio negative q.num.natAbs q.den

variable {s t : Bool} {q q' : ℚ} {x y : Binary64}

lemma natAbs_num_div_den (hq : 0 ≤ q) : (q.num.natAbs / q.den : ℚ) = q := by
  have hnum : ((q.num.natAbs : ℤ) : ℚ) = q.num := by
    rw [Int.natAbs_of_nonneg (Rat.num_nonneg.mpr hq)]
  rw [Int.cast_natCast] at hnum
  rw [hnum, Rat.num_div_den]

theorem ofRatio_eq_nearest (s : Bool) (num : ℕ) (hd : 0 < den) :
    ofRatio s num den = nearest s (num / den) :=
  ofRatio_congr s hd (Rat.den_pos _) (natAbs_num_div_den (by positivity)).symm

lemma isNegative_ofRatio (s : Bool) (num den : ℕ) : (ofRatio s num den).isNegative = s := by
  unfold ofRatio ofParts
  dsimp only
  split_ifs <;> rfl

@[simp] lemma isNegative_nearest (s : Bool) (q : ℚ) : (nearest s q).isNegative = s :=
  isNegative_ofRatio _ _ _

lemma nearest_le (s : Bool) (hq : 0 ≤ q) (hx : x.isFinite = true) (h : q ≤ x.modulus) :
    (nearest s q).isFinite = true ∧ (nearest s q).modulus ≤ x.modulus :=
  ofRatio_le s q.den_pos hx (by rwa [natAbs_num_div_den hq])

lemma le_nearest (hq : 0 ≤ q) (hfin : (nearest s q).isFinite = true) (h : x.modulus ≤ q) :
    x.modulus ≤ (nearest s q).modulus := by
  refine (le_ofRatio s q.den_pos (by rwa [natAbs_num_div_den hq])).resolve_left fun hinf => ?_
  rw [nearest, hinf] at hfin
  cases hfin

lemma natAbs_num_pos (hq : 0 < q) : 0 < q.num.natAbs :=
  Int.natAbs_pos.mpr (Rat.num_ne_zero.mpr hq.ne')

/-- A positive magnitude becomes the rounded one, unless that is beyond the format. -/
lemma nearest_cases (s : Bool) (hq : 0 < q) :
    ((nearest s q).isFinite = true ∧ (nearest s q).modulus = rounded q.num.natAbs q.den) ∨
      nearest s q = infinite s ∧ 2 ^ (1024 : ℤ) ≤ rounded q.num.natAbs q.den := by
  rcases ofRatio_cases s (natAbs_num_pos hq) q.den_pos with ⟨m, e, hc, heq, hval⟩ | hinf
  · rw [nearest, heq, modulus_finite]
    exact .inl ⟨rfl, hval⟩
  · exact .inr hinf

lemma modulus_nearest (hq : 0 < q) (hfin : (nearest s q).isFinite = true) :
    (nearest s q).modulus = rounded q.num.natAbs q.den := by
  rcases nearest_cases s hq with ⟨-, hval⟩ | ⟨hinf, -⟩
  · exact hval
  · rw [hinf] at hfin
    cases hfin

lemma isFinite_nearest_of_lt (s : Bool) (hq : 0 < q)
    (h : rounded q.num.natAbs q.den < 2 ^ (1024 : ℤ)) : (nearest s q).isFinite = true := by
  rcases nearest_cases s hq with ⟨hfin, -⟩ | ⟨-, hbig⟩
  · exact hfin
  · exact absurd h hbig.not_gt

@[simp] lemma modulus_nearest_zero (s : Bool) : (nearest s 0).modulus = 0 := by
  simp [nearest, ofRatio]

lemma modulus_nonneg (x : Binary64) : 0 ≤ x.modulus := by
  unfold modulus
  positivity

/-- A larger magnitude is not rounded to less. -/
theorem nearest_mono (hq : 0 ≤ q) (h : q ≤ q') (hfin : (nearest t q').isFinite = true) :
    (nearest s q).isFinite = true ∧ (nearest s q).modulus ≤ (nearest t q').modulus := by
  rcases hq.eq_or_lt with rfl | hpos
  · exact ⟨rfl, by simp [modulus_nonneg]⟩
  have hle : rounded q.num.natAbs q.den ≤ rounded q'.num.natAbs q'.den := by
    refine rounded_mono (natAbs_num_pos hpos) q.den_pos q'.den_pos ?_
    rwa [natAbs_num_div_den hq, natAbs_num_div_den (hq.trans h)]
  have hfar := modulus_nearest (hpos.trans_le h) hfin
  have hnear : (nearest s q).isFinite = true := by
    refine isFinite_nearest_of_lt s hpos (hle.trans_lt ?_)
    rw [← hfar]
    exact modulus_lt
  rw [hfar, modulus_nearest hpos hnear]
  exact ⟨hnear, hle⟩

/-- No finite value is nearer to a magnitude than the nearest one. -/
theorem nearest_nearest (hq : 0 ≤ q) (hfin : (nearest s q).isFinite = true)
    (hx : x.isFinite = true) : |(nearest s q).modulus - q| ≤ |x.modulus - q| := by
  rcases hq.eq_or_lt with rfl | hpos
  · simp
  obtain ⟨t, m, e, hc, rfl⟩ := isFinite_iff.mp hx
  have hround := rounded_nearest (natAbs_num_pos hpos) q.den_pos hc.1 hc.2.1
  rwa [natAbs_num_div_den hq, ← modulus_nearest hpos hfin, ← modulus_finite t m e hc] at hround

/-- A multiple that fits 53 bits is not rounded at all. -/
lemma nearest_dyadic (s : Bool) {m : ℕ} {e : ℤ} (hm : m < 2 ^ 53) (he : -1074 ≤ e) (he' : e ≤ 971) :
    (nearest s (m * 2 ^ e)).isFinite = true ∧ (nearest s (m * 2 ^ e)).modulus = m * 2 ^ e := by
  rcases m.eq_zero_or_pos with rfl | hm0
  · rw [Nat.cast_zero, zero_mul]
    exact ⟨rfl, modulus_nearest_zero s⟩
  have hpos : (0 : ℚ) < m * 2 ^ e := by positivity
  generalize hq : (m * 2 ^ e : ℚ) = q at hpos ⊢
  have hn := natAbs_num_pos hpos
  have hquot := (natAbs_num_div_den hpos.le).trans hq.symm
  have hval : rounded q.num.natAbs q.den = q := hq ▸
    (rounded_le hn q.den_pos hm he hquot.le).antisymm (le_rounded hn q.den_pos hm he hquot.ge)
  have hsmall : q < 2 ^ (1024 : ℤ) :=
    hq ▸ (dyadic_lt_two_zpow hm e).trans_le (two_zpow_le (by omega))
  have hfin := isFinite_nearest_of_lt s hpos (hval.trans_lt hsmall)
  exact ⟨hfin, (modulus_nearest hpos hfin).trans hval⟩

/-- Up to half a unit above the greatest value, nothing overflows. -/
lemma isFinite_nearest (s : Bool) (hq : 0 ≤ q) (h : q < greatest.modulus + 2 ^ (970 : ℤ)) :
    (nearest s q).isFinite = true := by
  rcases hq.eq_or_lt with rfl | hpos
  · rfl
  have hround := rounded_nearest (natAbs_num_pos hpos) q.den_pos
    (show 2 ^ 53 - 1 < 2 ^ 53 by decide) (show -1074 ≤ (971 : ℤ) by decide)
  have hgreatest : greatest.modulus = (2 ^ 53 - 1 : ℕ) * 2 ^ (971 : ℤ) := modulus_finite ..
  have hunit : (2 : ℚ) ^ (971 : ℤ) = 2 ^ (1 : ℤ) * 2 ^ (970 : ℤ) := zpow_add₀ two_ne_zero 1 970
  have htop : (2 : ℚ) ^ (1024 : ℤ) = 2 ^ (54 : ℤ) * 2 ^ (970 : ℤ) := zpow_add₀ two_ne_zero 54 970
  have hpos' := two_zpow_pos 970
  rw [natAbs_num_div_den hq, ← hgreatest] at hround
  refine isFinite_nearest_of_lt s hpos ?_
  rw [hgreatest, hunit] at h hround
  rw [htop]
  generalize (2 : ℚ) ^ (970 : ℤ) = u at h hround hpos' ⊢
  push_cast at h hround ⊢
  -- both neighbours of the overflow threshold are as far away as it is
  rcases abs_cases (9007199254740991 * (2 * u) - q) with habs | habs
  · linarith [(abs_le.mp hround).2]
  · linarith [(abs_le.mp hround).2]

/-- A magnitude has one canonical form. -/
lemma canonical_unique {m m' : ℕ} {e e' : ℤ} (hc : Canonical m e) (hc' : Canonical m' e')
    (h : (m * 2 ^ e : ℚ) = m' * 2 ^ e') : m = m' ∧ e = e' := by
  wlog hle : e ≤ e' generalizing m m' e e'
  · obtain ⟨hm, he⟩ := this hc' hc h.symm (le_of_not_ge hle)
    exact ⟨hm.symm, he.symm⟩
  rw [dyadic_eq hle m', mul_left_inj' (two_zpow_pos e).ne'] at h
  have hm : m = m' * 2 ^ (e' - e).toNat := by exact_mod_cast h
  rcases hle.eq_or_lt with rfl | hlt
  · exact ⟨by simpa using hm, rfl⟩
  · exfalso
    have hbig : 2 ^ 52 ≤ m' := hc'.2.2.2.resolve_right (by have := hc.2.1; omega)
    have htwo : 2 ^ 1 ≤ 2 ^ (e' - e).toNat := Nat.pow_le_pow_right two_pos (by omega)
    have hprod : 2 ^ 52 * 2 ^ 1 ≤ m := hm ▸ Nat.mul_le_mul hbig htwo
    have hsmall : m < 2 ^ 53 := hc.1
    omega

lemma eq_of_modulus_eq (hx : x.isFinite = true) (hy : y.isFinite = true)
    (hsign : x.isNegative = y.isNegative) (h : x.modulus = y.modulus) : x = y := by
  obtain ⟨s, m, e, hc, rfl⟩ := isFinite_iff.mp hx
  obtain ⟨t, n, f, hc', rfl⟩ := isFinite_iff.mp hy
  rw [modulus_finite, modulus_finite] at h
  obtain ⟨rfl, rfl⟩ := canonical_unique hc hc' h
  obtain rfl : s = t := hsign
  rfl

/-- What the format holds is rounded to itself. -/
theorem nearest_modulus (hx : x.isFinite = true) : nearest x.isNegative x.modulus = x := by
  obtain ⟨hfin, hle⟩ := nearest_le x.isNegative x.modulus_nonneg hx le_rfl
  have hge := le_nearest x.modulus_nonneg hfin (x := x) le_rfl
  exact eq_of_modulus_eq hfin hx (isNegative_nearest _ _) (hle.antisymm hge)

/-- Below half of the least value, everything is rounded to zero. -/
lemma nearest_of_lt (s : Bool) (hq : 0 ≤ q) (h : 2 * q < 2 ^ (-1074 : ℤ)) :
    nearest s q = finite s 0 (-1074) canonical_zero := by
  obtain ⟨hleast, hone⟩ :=
    nearest_dyadic s (show 1 < 2 ^ 53 by decide) (show -1074 ≤ -1074 by decide) (by decide)
  obtain ⟨hfin, -⟩ := nearest_le s hq hleast (by
    rw [hone, Nat.cast_one, one_mul]
    exact (le_mul_of_one_le_left hq one_le_two).trans h.le)
  have hnear := nearest_nearest hq hfin (x := zero) rfl
  have hzero : zero.modulus = 0 := by simp [zero]
  rw [hzero, zero_sub, abs_neg, abs_of_nonneg hq] at hnear
  have hsign : (nearest s q).isNegative = s := isNegative_nearest s q
  have hsmall : (nearest s q).modulus < 2 ^ (-1074 : ℤ) := by linarith [(abs_le.mp hnear).2]
  obtain ⟨t, m, e, hc, hx⟩ := isFinite_iff.mp hfin
  rw [hx] at hsign hsmall ⊢
  obtain rfl : t = s := hsign
  have hm : m = 0 := by
    by_contra hm
    have hge : (1 : ℚ) * 2 ^ (-1074 : ℤ) ≤ m * 2 ^ e :=
      mul_le_mul (Nat.one_le_cast.mpr (Nat.one_le_iff_ne_zero.mpr hm)) (two_zpow_le hc.2.1)
        (two_zpow_pos _).le (Nat.cast_nonneg m)
    rw [modulus_finite] at hsmall
    linarith
  subst hm
  obtain rfl : e = -1074 := by
    rcases hc.2.2.2 with hbits | he
    · exact absurd hbits (by decide)
    · exact he
  rfl

/-- From the power of two on that the format does not reach, all is rounded to an infinity. -/
lemma nearest_of_ge (s : Bool) (h : 2 ^ (1024 : ℤ) ≤ q) : nearest s q = infinite s := by
  have hq : 0 < q := (two_zpow_pos 1024).trans_le h
  have htop : ((2 ^ 52 : ℕ) : ℚ) * 2 ^ (972 : ℤ) = 2 ^ (1024 : ℤ) := by
    have hbits : ((2 ^ 52 : ℕ) : ℚ) = 2 ^ (52 : ℤ) := by norm_num
    rw [hbits]
    exact (zpow_add₀ two_ne_zero 52 972).symm
  have hround := le_rounded (natAbs_num_pos hq) q.den_pos (show 2 ^ 52 < 2 ^ 53 by decide)
    (show (-1074 : ℤ) ≤ 972 by decide) (by rw [htop, natAbs_num_div_den hq.le]; exact h)
  rw [htop] at hround
  rcases nearest_cases s hq with ⟨-, hval⟩ | ⟨hinf, -⟩
  · rw [← hval] at hround
    exact absurd modulus_lt hround.not_gt
  · exact hinf

/-- The number that a finite value stands for; zero for the others. -/
def value (x : Binary64) : ℚ := if x.isNegative then -x.modulus else x.modulus

lemma value_eq_modulus (h : x.isNegative = false) : x.value = x.modulus := by
  rw [value, h]
  rfl

lemma inUnits_mul {m : ℕ} {e unit : ℤ} (h : unit ≤ e) (s : Bool) (hc : Canonical m e) :
    (inUnits s m e unit : ℚ) * 2 ^ unit = (finite s m e hc).value := by
  have hdyadic := dyadic_eq h m
  unfold inUnits value
  rw [modulus_finite, hdyadic]
  cases s <;> simp [isNegative, Nat.pow_eq]

theorem lt_iff_value (hx : x.isFinite = true) (hy : y.isFinite = true) :
    x.lt y = true ↔ x.value < y.value := by
  obtain ⟨s, m, e, hc, rfl⟩ := isFinite_iff.mp hx
  obtain ⟨t, n, f, hc', rfl⟩ := isFinite_iff.mp hy
  rw [lt, decide_eq_true_eq, ← inUnits_mul (min_le_left e f) s hc,
    ← inUnits_mul (min_le_right e f) t hc', mul_lt_mul_iff_left₀ (two_zpow_pos _)]
  exact_mod_cast Iff.rfl

lemma ofDyadic_eq_nearest (s : Bool) (m : ℕ) (e : ℤ) : ofDyadic s m e = nearest s (m * 2 ^ e) := by
  have hval : ((m * Nat.pow 2 e.toNat : ℕ) : ℚ) / (Nat.pow 2 (-e).toNat : ℕ) = m * 2 ^ e := by
    rw [two_zpow_eq_div, ← mul_div_assoc]
    push_cast [Nat.pow_eq]
    rfl
  have hden : 0 < Nat.pow 2 (-e).toNat := Nat.pow_pos two_pos
  rw [← hval]
  exact ofRatio_eq_nearest s _ hden

/-- A product is the exact one, rounded once. -/
theorem mul_eq_nearest (hx : x.isFinite = true) (hy : y.isFinite = true) :
    x.mul y = nearest (x.isNegative != y.isNegative) (x.modulus * y.modulus) := by
  obtain ⟨s, m, e, hc, rfl⟩ := isFinite_iff.mp hx
  obtain ⟨t, n, f, hc', rfl⟩ := isFinite_iff.mp hy
  rw [mul, ofDyadic_eq_nearest, modulus_finite, modulus_finite, mul_mul_mul_comm,
    zpow_add₀ two_ne_zero]
  push_cast
  rfl

lemma ofNat_eq_nearest (n : ℕ) : ofNat n = nearest false n := by
  rw [ofNat, ofRatio_eq_nearest false n one_pos, Nat.cast_one, div_one]

/-- A quotient is the exact one, rounded once. -/
theorem div_eq_nearest (hx : x.isFinite = true) (hy : y.isFinite = true) (h : y.modulus ≠ 0) :
    x.div y = nearest (x.isNegative != y.isNegative) (x.modulus / y.modulus) := by
  obtain ⟨s, m, e, hc, rfl⟩ := isFinite_iff.mp hx
  obtain ⟨t, n, f, hc', rfl⟩ := isFinite_iff.mp hy
  have hn : n ≠ 0 := by
    rintro rfl
    simp at h
  have hden : 0 < n * Nat.pow 2 (-(e - f)).toNat :=
    Nat.mul_pos (Nat.pos_of_ne_zero hn) (Nat.pow_pos two_pos)
  rw [div, if_neg hn, modulus_finite, modulus_finite, ← scaled_div]
  exact ofRatio_eq_nearest _ _ hden

/-- A sum is the exact one, rounded once. -/
theorem add_eq_nearest (hx : x.isFinite = true) (hy : y.isFinite = true)
    (h : x.value + y.value ≠ 0) :
    x.add y = nearest (decide (x.value + y.value < 0)) |x.value + y.value| := by
  obtain ⟨s, m, e, hc, rfl⟩ := isFinite_iff.mp hx
  obtain ⟨t, n, f, hc', rfl⟩ := isFinite_iff.mp hy
  have hpos := two_zpow_pos (min e f)
  rw [add]
  generalize hsum : inUnits s m e (min e f) + inUnits t n f (min e f) = sum
  have hval : (finite s m e hc).value + (finite t n f hc').value = sum * 2 ^ min e f := by
    rw [← hsum, ← inUnits_mul (min_le_left e f) s hc, ← inUnits_mul (min_le_right e f) t hc']
    push_cast
    ring
  have hsum0 : sum ≠ 0 := by
    rintro rfl
    exact h (by simp [hval])
  have hneg : (sum * 2 ^ min e f : ℚ) < 0 ↔ sum < 0 := by
    rw [mul_neg_iff]
    simp [hpos, hpos.not_gt]
  rw [if_neg hsum0, ofDyadic_eq_nearest, hval, abs_mul, abs_of_pos hpos, Nat.cast_natAbs,
    Int.cast_abs]
  simp only [hneg]

lemma add_eq_nearest_of_pos (hx : x.isFinite = true) (hy : y.isFinite = true)
    (h : 0 < x.value + y.value) : x.add y = nearest false (x.value + y.value) := by
  rw [add_eq_nearest hx hy h.ne', abs_of_pos h, decide_eq_false h.not_gt]

end PaymentDrill.Binary64
