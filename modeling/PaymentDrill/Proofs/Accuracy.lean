import PaymentDrill.Proofs.Closeness
import PaymentDrill.Session

/-!
# Accuracy of a summary

The seconds of a span take three roundings and are within three roundoffs of the exact span, for
the nanoseconds are converted as they are. The rate takes two more, and a division, where the
shares add up: it is within eight roundoffs, one part in 2^50. Two places are printed of each, so
a line is off by half a hundredth more. Spans and counts are far from where the format ends, so
nothing is lost there. A rate over no time at all is infinite, or not a number.
-/
namespace PaymentDrill

open Binary64

namespace Elapsed

variable {t : Elapsed}

/-- The exact number of seconds. -/
def value (t : Elapsed) : ℚ := t.seconds + t.nanoseconds / 10 ^ 9

/-- What a clock can tell: seconds of 64 bits, and nanoseconds that make no second. -/
structure Clocked (t : Elapsed) : Prop where
  seconds : t.seconds < 2 ^ 64
  nanoseconds : t.nanoseconds < 10 ^ 9

lemma moderate_value (h : t.Clocked) : Moderate 124 t.value := by
  have hquot : t.value = (t.seconds * 10 ^ 9 + t.nanoseconds : ℕ) / (10 ^ 9 : ℕ) := by
    rw [value]
    push_cast
    ring
  have hseconds := h.seconds
  have hnanoseconds := h.nanoseconds
  rw [hquot]
  exact Moderate.div (j := 94) (k := 30) (.natCast (by simp; omega) (by decide))
    (.natCast (by decide) (by decide))

/-- Both numbers fit 53 bits, so only the quotient is rounded. -/
lemma approximates_fraction {n : ℕ} (h : n < 10 ^ 9) :
    Approximates roundoff (n / 10 ^ 9) ((ofNat n).div (ofNat 1000000000)) := by
  obtain ⟨hfin, hvalue⟩ := modulus_ofNat (n := n) (by omega)
  obtain ⟨hfin', hvalue'⟩ := modulus_ofNat (n := 1000000000) (by decide)
  have hmoderate : Moderate (30 + 30) (n / (1000000000 : ℕ)) :=
    .div (.natCast (by simp; omega) (by decide)) (.natCast (by decide) (by decide))
  have happrox := approximates_nearest hmoderate (by decide)
  rw [div_eq_nearest hfin hfin' (by rw [hvalue']; norm_num), hvalue, hvalue', ofNat_eq_nearest,
    ofNat_eq_nearest, isNegative_nearest, isNegative_nearest]
  norm_num at happrox ⊢
  exact happrox

/-- A sum of two numbers that were rounded once, rounded once more. -/
theorem approximates_toBinary64 (h : t.Clocked) (hpos : 0 < t.value) :
    Approximates (3 * roundoff) t.value t.toBinary64 := by
  have hseconds := approximates_ofNat h.seconds.le
  have hfraction := approximates_fraction h.nanoseconds
  have hclose := hseconds.close.add hfraction.close
  have hsum := (mul_pos (by norm_num [roundoff]) hpos).trans_le hclose.bounds.1
  have hmoderate := (moderate_value h).of_close hclose (by norm_num [roundoff])
  rw [← value_eq_modulus hseconds.sign, ← value_eq_modulus hfraction.sign] at hclose hsum hmoderate
  rw [toBinary64, add_eq_nearest_of_pos hseconds.finite hfraction.finite hsum]
  exact (Approximates.of_close hclose hmoderate (by decide)).mono (by norm_num [roundoff]) hpos.le

end Elapsed

namespace Summary

variable {s : Summary}

/-- A quotient of two numbers that are close, rounded once. -/
theorem approximates_rate (hsent : s.tally.sent < 2 ^ 64) (h : s.elapsed.Clocked)
    (hpos : 0 < s.elapsed.value) :
    Approximates (2 ^ (-50 : ℤ)) (s.tally.sent / s.elapsed.value) s.rate := by
  have hcount := approximates_ofNat hsent.le
  have hspan := Elapsed.approximates_toBinary64 h hpos
  have hclose := hcount.close.div hspan.close (by norm_num [roundoff]) (Nat.cast_nonneg _) hpos
    (by norm_num [roundoff]) (by norm_num [roundoff])
  have hspan_pos := (mul_pos (by norm_num [roundoff]) hpos).trans_le hspan.close.bounds.1
  have hmoderate : Moderate (64 + 124) (s.tally.sent / s.elapsed.value) :=
    .div (.natCast (by simpa using hsent.le) (by decide)) (Elapsed.moderate_value h)
  have hrounded := hmoderate.of_close hclose (by norm_num [roundoff])
  rw [rate, div_eq_nearest hcount.finite hspan.finite hspan_pos.ne', hcount.sign, hspan.sign]
  exact (Approximates.of_close hclose hrounded (by decide)).mono (by norm_num [roundoff])
    hmoderate.nonneg

/-- A line with a number of two places between two texts, which is within half a hundredth and a
share of the exact one. -/
def Prints (before after line : List Char) (ε q : ℚ) : Prop :=
  ∃ text r, line = before ++ text ++ after ∧ Shows 2 r text ∧ |r - q| ≤ 5 / 1000 + ε * q

lemma prints_of_approximates {ε q : ℚ} {x : Binary64} (h : Approximates ε q x)
    (before after : List Char) :
    Prints before after (before ++ x.toFixedText 2 ++ after) ε q := by
  refine ⟨_, _, rfl, shows_toFixedText h.finite h.sign two_pos, ?_⟩
  have hplaces := lastPlaces_near 2 x
  calc |(x.lastPlaces 2 / 10 ^ 2 : ℚ) - q|
      ≤ |(x.lastPlaces 2 / 10 ^ 2 : ℚ) - x.modulus| + |x.modulus - q| := abs_sub_le _ _ _
    _ ≤ 1 / 2 / 10 ^ 2 + ε * q := add_le_add hplaces h.close
    _ = 5 / 1000 + ε * q := by norm_num

/-- What a summary says of a span that is not empty. -/
structure Accurate (s : Summary) : Prop where
  finite : s.rate.isFinite = true
  rate : |s.rate.value - s.tally.sent / s.elapsed.value| ≤
    2 ^ (-50 : ℤ) * (s.tally.sent / s.elapsed.value)
  lines : ∃ elapsedLine rateLine, s.lines = [elapsedLine, rateLine] ∧
    Prints "Time elapsed ".toList "s".toList elapsedLine (2 ^ (-51 : ℤ)) s.elapsed.value ∧
    Prints "Send ".toList " tx per second".toList rateLine (2 ^ (-50 : ℤ))
      (s.tally.sent / s.elapsed.value)

/-- What a summary says of no time at all. -/
structure Instant (s : Summary) : Prop where
  rate : s.rate = if s.tally.sent = 0 then .nan else .infinite false
  lines : s.lines = ["Time elapsed 0.00s".toList,
    ("Send " ++ (if s.tally.sent = 0 then "NaN" else "inf") ++ " tx per second").toList]

lemma accurate_of_pos (hsent : s.tally.sent < 2 ^ 64) (h : s.elapsed.Clocked)
    (hpos : 0 < s.elapsed.value) : Accurate s := by
  have hrate := approximates_rate hsent h hpos
  have hspan := (Elapsed.approximates_toBinary64 h hpos).mono (δ := 2 ^ (-51 : ℤ))
    (by norm_num [roundoff]) hpos.le
  refine ⟨hrate.finite, ?_, _, _, rfl, prints_of_approximates hspan _ _,
    prints_of_approximates hrate _ _⟩
  rw [value_eq_modulus hrate.sign]
  exact hrate.close

lemma rate_of_zero (hsent : s.tally.sent < 2 ^ 64) (hzero : s.elapsed.toBinary64 = zero) :
    s.rate = if s.tally.sent = 0 then .nan else .infinite false := by
  have hcount := approximates_ofNat hsent.le
  obtain ⟨t, m, e, hc, heq⟩ := isFinite_iff.mp hcount.finite
  have hclose := hcount.close.bounds
  have hsign := hcount.sign
  rw [heq, modulus_finite] at hclose
  rw [heq] at hsign
  obtain rfl : t = false := hsign
  have hm : m = 0 ↔ s.tally.sent = 0 := by
    constructor
    · rintro rfl
      have hle : (1 - roundoff) * (s.tally.sent : ℚ) ≤ 0 := by simpa using hclose.1
      have hle' := nonpos_of_mul_nonpos_right hle (by norm_num [roundoff])
      exact_mod_cast hle'.antisymm (Nat.cast_nonneg _)
    · intro h
      have hle : (m : ℚ) * 2 ^ e ≤ 0 := by simpa [h] using hclose.2
      exact_mod_cast (nonpos_of_mul_nonpos_left hle (two_zpow_pos e)).antisymm (Nat.cast_nonneg m)
  rw [rate, hzero, heq, zero, div, if_pos rfl]
  simp only [hm]
  rfl

lemma instant_of_zero (hsent : s.tally.sent < 2 ^ 64) (hzero : s.elapsed.value = 0) :
    Instant s := by
  have hspan : s.elapsed = ⟨0, 0⟩ := by
    have hterms := (add_eq_zero_iff_of_nonneg (Nat.cast_nonneg _) (by positivity)).mp hzero
    have hseconds : s.elapsed.seconds = 0 := by exact_mod_cast hterms.1
    have hnanoseconds : s.elapsed.nanoseconds = 0 := by simpa using hterms.2
    rcases h : s.elapsed with ⟨seconds, nanoseconds⟩
    simp_all
  have hspan' : s.elapsed.toBinary64 = zero := by
    rw [hspan]
    decide +kernel
  have hrate := rate_of_zero hsent hspan'
  refine ⟨hrate, ?_⟩
  unfold lines elapsedLine rateLine
  generalize s.elapsed.toBinary64 = span at hspan'
  generalize s.rate = rate at hrate
  subst hspan' hrate
  split_ifs <;> decide +kernel

/-- Whatever was sent in whatever time: the rate and what is printed of it are as exact as two
places and the format allow, and no time at all is no exception. -/
theorem summary_accurate (s : Summary) (hsent : s.tally.sent < 2 ^ 64) (h : s.elapsed.Clocked) :
    (0 < s.elapsed.value → Accurate s) ∧ (s.elapsed.value = 0 → Instant s) :=
  ⟨accurate_of_pos hsent h, instant_of_zero hsent⟩

/-- The most payments in the least time, and a payment in no time. -/
theorem hurried_accurate :
    Accurate ⟨⟨2 ^ 64 - 1, 0⟩, ⟨0, 1⟩⟩ ∧ Instant ⟨⟨1, 1⟩, ⟨0, 0⟩⟩ := by
  have hurried := summary_accurate ⟨⟨2 ^ 64 - 1, 0⟩, ⟨0, 1⟩⟩ (by decide) ⟨by decide, by decide⟩
  have instant := summary_accurate ⟨⟨1, 1⟩, ⟨0, 0⟩⟩ (by decide) ⟨by decide, by decide⟩
  exact ⟨hurried.1 (by norm_num [Elapsed.value]), instant.2 (by norm_num [Elapsed.value])⟩

example : lines ⟨⟨3, 0⟩, ⟨1, 500000000⟩⟩ =
    ["Time elapsed 1.50s".toList, "Send 2.00 tx per second".toList] := by decide +kernel

end Summary

end PaymentDrill
