import PaymentDrill.Proofs.Nearest
import PaymentDrill.Proofs.Sampling

/-!
# The range of an amount

A share of a ceiling is rounded, so it may come out as large as the ceiling; then it is
refused and another word is taken. A ceiling of full precision is never reached: even the
largest share is a whole unit below it, before rounding and after. Below that, at least
every second word is accepted, for half of a ceiling is never rounded to all of it. What
is added to the share in the end is rounded once more, which keeps the order of the sums.
-/
namespace PaymentDrill

open Binary64

namespace Binary64

variable {x : Binary64}

@[simp] lemma value_zero : zero.value = 0 := by simp [value, zero, isNegative]

lemma value_le_modulus (x : Binary64) : x.value ≤ x.modulus := by
  have hnonneg := x.modulus_nonneg
  unfold value
  split_ifs <;> linarith

lemma modulus_le_greatest (hx : x.isFinite = true) : x.modulus ≤ greatest.modulus := by
  obtain ⟨s, m, e, hc, rfl⟩ := isFinite_iff.mp hx
  have hm : (m : ℚ) ≤ (2 ^ 53 - 1 : ℕ) := Nat.cast_le.mpr (Nat.le_sub_one_of_lt hc.1)
  rw [greatest, modulus_finite, modulus_finite]
  exact mul_le_mul hm (two_zpow_le hc.2.2.1) (two_zpow_pos e).le (Nat.cast_nonneg _)

lemma isNegative_of_value_pos (h : 0 < x.value) : x.isNegative = false := by
  refine eq_false_of_ne_true fun hneg => ?_
  rw [value, hneg] at h
  exact absurd h (by simpa using x.modulus_nonneg)

lemma zero_lt_iff (hx : x.isFinite = true) : zero.lt x = true ↔ 0 < x.value := by
  rw [lt_iff_value rfl hx, value_zero]

end Binary64

namespace Payment

variable {addresses : List String} {ceiling : Binary64} {s t u : Keystream} {r : Binary64}

section Draws

variable {α : Type} {accept : UInt64 → Option α} {tries : ℕ} {a : α}

/-- A draw comes to an end if there is an acceptable word within its reach. -/
lemma draw_returns {ws : List UInt64} {w : UInt64} (hwords : s.Yields (ws ++ [w]) t)
    (htries : ws.length < tries) (hw : accept w ≠ none) : ∃ r, draw accept tries s = some r := by
  induction tries generalizing s ws with
  | zero => cases htries
  | succ tries ih =>
    rw [draw]
    split
    · exact ⟨_, rfl⟩
    · rename_i hnone
      cases ws with
      | nil =>
        cases hwords
        exact absurd hnone hw
      | cons v ws =>
        cases hwords with
        | cons rest => exact ih rest (by simpa using htries)

end Draws

/-- The part of one that a word stands for. -/
def part (w : UInt64) : ℚ := (w.toNat / 2 ^ 12 : ℕ) * 2 ^ (-52 : ℤ)

lemma part_nonneg (w : UInt64) : 0 ≤ part w := by
  unfold part
  positivity

/-- The largest part is a unit of 52 bits short of one. -/
lemma part_le (w : UInt64) : part w ≤ 1 - 2 ^ (-52 : ℤ) := by
  have hw : ((w.toNat / 2 ^ 12 : ℕ) : ℚ) ≤ (2 ^ 52 - 1 : ℕ) :=
    Nat.cast_le.mpr (by have := w.toNat_lt; omega)
  calc part w
      ≤ (2 ^ 52 - 1 : ℕ) * 2 ^ (-52 : ℤ) := mul_le_mul_of_nonneg_right hw (two_zpow_pos _).le
    _ = 1 - 2 ^ (-52 : ℤ) := by norm_num

/-- The exact share is rounded once. -/
theorem share_eq_nearest (hfin : ceiling.isFinite = true) (hpos : 0 < ceiling.value) (w : UInt64) :
    share ceiling w = nearest false (part w * ceiling.value) := by
  have hbits : w.toNat / 2 ^ 12 < 2 ^ 53 := by have := w.toNat_lt; omega
  have hsign := isNegative_of_value_pos hpos
  obtain ⟨hpart, hmodulus⟩ := nearest_dyadic false hbits (e := -52) (by decide) (by decide)
  rw [share, ofDyadic_eq_nearest, Nat.pow_eq, mul_eq_nearest hpart hfin, isNegative_nearest, hsign,
    hmodulus, value_eq_modulus hsign]
  rfl

/-- A share is rounded to the ceiling at most. -/
theorem share_bounds (hfin : ceiling.isFinite = true) (hpos : 0 < ceiling.value) (w : UInt64) :
    (share ceiling w).isFinite = true ∧ (share ceiling w).isNegative = false ∧
      0 ≤ (share ceiling w).value ∧ (share ceiling w).value ≤ ceiling.value := by
  have hshare := share_eq_nearest hfin hpos w
  have hsign : (share ceiling w).isNegative = false := by rw [hshare, isNegative_nearest]
  have hceiling := value_eq_modulus (isNegative_of_value_pos hpos)
  have hunit := two_zpow_pos (-52)
  have hpart : part w * ceiling.value ≤ 1 * ceiling.value :=
    mul_le_mul_of_nonneg_right ((part_le w).trans (by linarith)) hpos.le
  obtain ⟨hshare', hle⟩ := nearest_le false (mul_nonneg (part_nonneg w) hpos.le) hfin
    ((hpart.trans_eq (one_mul _)).trans_eq hceiling)
  rw [value_eq_modulus hsign, hceiling, hshare]
  exact ⟨hshare', isNegative_nearest _ _, modulus_nonneg _, hle⟩

lemma share?_eq_some_iff {w : UInt64} :
    share? ceiling w = some r ↔ r = share ceiling w ∧ (share ceiling w).lt ceiling = true := by
  unfold share?
  split_ifs with h
  · simp [h, eq_comm]
  · simp [h]

lemma share?_of_value_lt (hfin : ceiling.isFinite = true) (hpos : 0 < ceiling.value) {w : UInt64}
    (hlt : (share ceiling w).value < ceiling.value) :
    share? ceiling w = some (share ceiling w) :=
  share?_eq_some_iff.mpr ⟨rfl, (lt_iff_value (share_bounds hfin hpos w).1 hfin).mpr hlt⟩

/-- A word is refused for one reason only. -/
lemma share_of_refused (hfin : ceiling.isFinite = true) (hpos : 0 < ceiling.value) {w : UInt64}
    (h : share? ceiling w = none) : share ceiling w = ceiling := by
  obtain ⟨hshare, hsign, -, hle⟩ := share_bounds hfin hpos w
  have hceiling := isNegative_of_value_pos hpos
  have heq : (share ceiling w).value = ceiling.value := by
    refine hle.eq_of_not_lt fun hlt => ?_
    rw [share?_of_value_lt hfin hpos hlt] at h
    cases h
  rw [value_eq_modulus hsign, value_eq_modulus hceiling] at heq
  exact eq_of_modulus_eq hshare hfin (hsign.trans hceiling.symm) heq

lemma drawShare_eq_ok_iff (hfin : ceiling.isFinite = true) (hpos : 0 < ceiling.value) :
    drawShare ceiling s = .ok (r, t) ↔ draw (share? ceiling) Keystream.period s = some (r, t) := by
  have hinf : ceiling.isInfinite = false := by
    cases ceiling <;> first | rfl | cases hfin
  rw [drawShare, if_pos ((zero_lt_iff hfin).mpr hpos), hinf]
  cases draw (share? ceiling) Keystream.period s <;> simp

lemma drawShare_of_nonpos (hfin : ceiling.isFinite = true) (hneg : ceiling.value ≤ 0)
    (s : Keystream) : drawShare ceiling s = .ok (zero, s) :=
  drawShare_of_negligible (zero_lt_eq_false_iff.mp
    (eq_false_of_ne_true fun hpos => hneg.not_gt ((zero_lt_iff hfin).mp hpos))) s

/-- What a positive ceiling makes of the words of a stream. -/
structure Shared (ceiling : Binary64) (s : Keystream) (r : Binary64) (t : Keystream) : Prop where
  finite : r.isFinite = true
  nonneg : 0 ≤ r.value
  lt : r.value < ceiling.value
  /-- The share is that of the first word that is not rounded up to the ceiling. -/
  words : ∃ ws w, s.Yields (ws ++ [w]) t ∧ r = nearest false (part w * ceiling.value) ∧
    ∀ v ∈ ws, nearest false (part v * ceiling.value) = ceiling

theorem shared_of_drawShare (hfin : ceiling.isFinite = true) (hpos : 0 < ceiling.value)
    (h : drawShare ceiling s = .ok (r, t)) : Shared ceiling s r t := by
  obtain ⟨ws, w, hwords, hw, hrefused⟩ := words_of_draw ((drawShare_eq_ok_iff hfin hpos).mp h)
  obtain ⟨rfl, hlt⟩ := share?_eq_some_iff.mp hw
  obtain ⟨hshare, -, hnonneg, -⟩ := share_bounds hfin hpos w
  exact {
    finite := hshare
    nonneg := hnonneg
    lt := (lt_iff_value hshare hfin).mp hlt
    words := ⟨ws, w, hwords, share_eq_nearest hfin hpos w, fun v hv =>
      (share_eq_nearest hfin hpos v).symm.trans (share_of_refused hfin hpos (hrefused v hv))⟩ }

lemma isFinite_leastAmount : leastAmount.isFinite = true := by decide +kernel

lemma isNegative_leastAmount : leastAmount.isNegative = false := by decide +kernel

/-- The least amount is a tenth, as near as can be. -/
lemma leastAmount_eq : leastAmount = nearest false (1 / 10) :=
  (ofRatio_eq_nearest false 1 (show 0 < 10 by decide)).trans (by norm_num)

lemma leastAmount_value_lt : leastAmount.value < 2 ^ (970 : ℤ) := by
  obtain ⟨hfin, hone⟩ := nearest_dyadic false (m := 1) (e := 0) (by decide) (by decide) (by decide)
  obtain ⟨-, hle⟩ := nearest_le false (q := 1 / 10) (by norm_num) hfin (by rw [hone]; norm_num)
  rw [← leastAmount_eq, hone, ← value_eq_modulus isNegative_leastAmount] at hle
  have hbig : (1 : ℚ) < 2 ^ (970 : ℤ) := one_lt_zpow₀ (by norm_num) (by decide)
  exact (hle.trans (by norm_num)).trans_lt hbig

lemma leastAmount_value_pos : 0 < leastAmount.value :=
  (zero_lt_iff isFinite_leastAmount).mp (by decide +kernel)

/-- Adding the least amount to what is not negative rounds once and never overflows. -/
lemma add_leastAmount (hr : r.isFinite = true) (hnonneg : 0 ≤ r.value) :
    r.add leastAmount = nearest false (r.value + leastAmount.value) ∧
      (r.add leastAmount).isFinite = true := by
  have hleast := leastAmount_value_pos
  have hsum : 0 < r.value + leastAmount.value := by linarith
  have hadd := add_eq_nearest_of_pos hr isFinite_leastAmount hsum
  refine ⟨hadd, ?_⟩
  rw [hadd]
  refine isFinite_nearest false hsum.le (add_lt_add_of_le_of_lt ?_ ?_)
  · exact (value_le_modulus r).trans (modulus_le_greatest hr)
  · exact leastAmount_value_lt

/-- What is chosen below a finite ceiling. -/
structure Ranged (addresses : List String) (ceiling : Binary64) (s : Keystream) (p : Payment)
    (t : Keystream) : Prop where
  mem : p.address ∈ addresses
  /-- The words for the amount come after those for the address, and the sum is rounded once. -/
  drawn : ∃ r u, drawAddress addresses s = .ok (p.address, u) ∧ drawShare ceiling u = .ok (r, t) ∧
    p.amount = r.add leastAmount ∧ p.amount = nearest false (r.value + leastAmount.value) ∧
    (0 < ceiling.value → Shared ceiling u r t) ∧ (ceiling.value ≤ 0 → r = zero ∧ t = u)
  finite : p.amount.isFinite = true
  bounds : 0 < ceiling.value → leastAmount.value ≤ p.amount.value ∧
    p.amount.value ≤ (ceiling.add leastAmount).value
  least : ceiling.value ≤ 0 → p.amount = leastAmount

/-- The sum keeps the bounds of the share, rounded as it is itself. -/
lemma bounds_of_shared (hfin : ceiling.isFinite = true) (h : Shared ceiling s r t) :
    leastAmount.value ≤ (r.add leastAmount).value ∧
      (r.add leastAmount).value ≤ (ceiling.add leastAmount).value := by
  have hleast := leastAmount_value_pos
  obtain ⟨hsum, hsumfin⟩ := add_leastAmount h.finite h.nonneg
  obtain ⟨hmost, hmostfin⟩ := add_leastAmount hfin (h.nonneg.trans h.lt.le)
  rw [hsum] at hsumfin
  rw [hmost] at hmostfin
  have hnonneg : 0 ≤ r.value + leastAmount.value := add_nonneg h.nonneg hleast.le
  rw [hsum, hmost, value_eq_modulus (isNegative_nearest ..),
    value_eq_modulus (isNegative_nearest ..), value_eq_modulus isNegative_leastAmount]
  constructor
  · refine le_nearest hnonneg hsumfin ?_
    rw [← value_eq_modulus isNegative_leastAmount]
    exact le_add_of_nonneg_left h.nonneg
  · exact (nearest_mono hnonneg (by linarith [h.lt]) hmostfin).2

theorem ranged_of_choose (hfin : ceiling.isFinite = true) {index : ℕ} {p : Payment}
    (h : choose addresses ceiling index s = .ok (p, t)) : Ranged addresses ceiling s p t := by
  obtain ⟨r, u, haddress, hshare, hp⟩ : ∃ r u, drawAddress addresses s = .ok (p.address, u) ∧
      drawShare ceiling u = .ok (r, t) ∧ p.amount = r.add leastAmount := by
    unfold choose at h
    split at h
    · cases h
    rename_i ha
    split at h
    · cases h
    rename_i hr
    obtain ⟨rfl, rfl⟩ := Prod.mk.inj (Except.ok.inj h)
    exact ⟨_, _, ha, hr, rfl⟩
  have hmem := mem_of_drawAddress haddress
  rcases le_or_gt ceiling.value 0 with hneg | hpos
  · rw [drawShare_of_nonpos hfin hneg] at hshare
    obtain ⟨rfl, rfl⟩ := Prod.mk.inj (Except.ok.inj hshare)
    obtain ⟨hsum, hsumfin⟩ := add_leastAmount (r := zero) rfl value_zero.ge
    have hzero : zero.add leastAmount = leastAmount := by decide +kernel
    exact {
      mem := hmem
      drawn := ⟨zero, u, haddress, drawShare_of_nonpos hfin hneg u, hp, hp.trans hsum,
        fun hpos => absurd hpos hneg.not_gt, fun _ => ⟨rfl, rfl⟩⟩
      finite := hp ▸ hsumfin
      bounds := fun hpos => absurd hpos hneg.not_gt
      least := fun _ => hp.trans hzero }
  · have hshared := shared_of_drawShare hfin hpos hshare
    obtain ⟨hsum, hsumfin⟩ := add_leastAmount hshared.finite hshared.nonneg
    exact {
      mem := hmem
      drawn := ⟨r, u, haddress, hshare, hp, hp.trans hsum, fun _ => hshared,
        fun hneg => absurd hpos hneg.not_gt⟩
      finite := hp ▸ hsumfin
      bounds := fun _ => hp ▸ bounds_of_shared hfin hshared
      least := fun hneg => absurd hpos hneg.not_gt }

end Payment

end PaymentDrill
