import Mathlib.Algebra.Order.Floor.Div
import Mathlib.Data.FinEnum
import Mathlib.Data.Set.Card.Arithmetic
import Mathlib.Order.Interval.Finset.Nat
import PaymentDrill.Proofs.Amounts

/-!
# Even chances

How a word picks an index, as it is computed on words: the word and the number of indices
are multiplied to 128 bits, the high half is the index, and the low half says whether the
word counts. The products that count fill a window of the same size for each index, and in
a window of that size there are always as many multiples. So no index is picked by more
words than another, and at least every second word picks one.
-/
namespace PaymentDrill.Payment

/-- The product of a word and a number of indices, on 128 bits. -/
def product (n : ℕ) (w : UInt64) : BitVec 128 := w.toBitVec.setWidth 128 * BitVec.ofNat 128 n

def highHalf (n : ℕ) (w : UInt64) : BitVec 64 := (product n w).extractLsb' 64 64

def lowHalf (n : ℕ) (w : UInt64) : BitVec 64 := (product n w).setWidth 64

def leadingZeros (n : ℕ) : ℕ := (BitVec.ofNat 64 n).clz.toNat

/-- The greatest low half that counts: the number is shifted up to its leading bit, less one. -/
def zone (n : ℕ) : BitVec 64 := (BitVec.ofNat 64 n <<< leadingZeros n) - 1

/-- The word counts. -/
def Counts (n : ℕ) (w : UInt64) : Prop := lowHalf n w ≤ zone n

/-- The word counts, and it stands for the index. -/
def Picks (n : ℕ) (w : UInt64) (i : ℕ) : Prop := Counts n w ∧ (highHalf n w).toNat = i

variable {n i : ℕ} {w : UInt64}

lemma toNat_product (hn : n < 2 ^ 64) (w : UInt64) : (product n w).toNat = w.toNat * n := by
  have hw := w.toNat_lt
  have hn' : n < 2 ^ 128 := by omega
  have hproduct : w.toNat * n < 2 ^ 128 := by
    calc w.toNat * n
        < 2 ^ 64 * 2 ^ 64 := Nat.mul_lt_mul'' hw hn
      _ = 2 ^ 128 := by norm_num
  simp only [product, BitVec.toNat_mul, BitVec.toNat_setWidth, BitVec.toNat_ofNat,
    UInt64.toNat_toBitVec]
  rw [Nat.mod_eq_of_lt hn', Nat.mod_eq_of_lt (by omega : w.toNat < 2 ^ 128),
    Nat.mod_eq_of_lt hproduct]

lemma toNat_highHalf (hn : n < 2 ^ 64) (w : UInt64) :
    (highHalf n w).toNat = w.toNat * n / 2 ^ 64 := by
  have hhigh : w.toNat * n / 2 ^ 64 < 2 ^ 64 :=
    Nat.div_lt_of_lt_mul (Nat.mul_lt_mul'' w.toNat_lt hn)
  rw [highHalf, BitVec.extractLsb'_toNat, toNat_product hn, Nat.shiftRight_eq_div_pow,
    Nat.mod_eq_of_lt hhigh]

lemma toNat_lowHalf (hn : n < 2 ^ 64) (w : UInt64) :
    (lowHalf n w).toNat = w.toNat * n % 2 ^ 64 := by
  rw [lowHalf, BitVec.toNat_setWidth, toNat_product hn]

lemma leadingZeros_bounds (hpos : 0 < n) (hn : n < 2 ^ 64) :
    leadingZeros n ≤ 63 ∧ 2 ^ (63 - leadingZeros n) ≤ n ∧ n < 2 ^ (64 - leadingZeros n) := by
  have hval : (BitVec.ofNat 64 n).toNat = n := by rw [BitVec.toNat_ofNat, Nat.mod_eq_of_lt hn]
  have hne : BitVec.ofNat 64 n ≠ 0#64 := by
    intro h
    rw [h, BitVec.toNat_ofNat] at hval
    omega
  have hlow := BitVec.two_pow_sub_clz_le_toNat_of_ne_zero (by decide) hne
  have hhigh := BitVec.toNat_lt_two_pow_sub_clz (x := BitVec.ofNat 64 n)
  rw [hval] at hlow hhigh
  refine ⟨?_, hlow, hhigh⟩
  by_contra hzeros
  have hnone : 64 - (BitVec.ofNat 64 n).clz.toNat = 0 := by
    unfold leadingZeros at hzeros
    omega
  rw [hnone] at hhigh
  omega

/-- Shifted up to its leading bit, a number has 64 bits exactly. -/
lemma shifted_bounds (hpos : 0 < n) (hn : n < 2 ^ 64) :
    2 ^ 63 ≤ n * 2 ^ leadingZeros n ∧ n * 2 ^ leadingZeros n < 2 ^ 64 := by
  obtain ⟨hzeros, hlow, hhigh⟩ := leadingZeros_bounds hpos hn
  have hscale : 0 < 2 ^ leadingZeros n := Nat.two_pow_pos _
  constructor
  · calc 2 ^ 63
        = 2 ^ (63 - leadingZeros n) * 2 ^ leadingZeros n := by rw [← pow_add]; congr 1; omega
      _ ≤ n * 2 ^ leadingZeros n := Nat.mul_le_mul_right _ hlow
  · calc n * 2 ^ leadingZeros n
        < 2 ^ (64 - leadingZeros n) * 2 ^ leadingZeros n := Nat.mul_lt_mul_of_pos_right hhigh hscale
      _ = 2 ^ 64 := by rw [← pow_add]; congr 1; omega

lemma acceptance_eq (hpos : 0 < n) (hn : n < 2 ^ 64) : acceptance n = n * 2 ^ leadingZeros n := by
  obtain ⟨hzeros, hlow, hhigh⟩ := leadingZeros_bounds hpos hn
  have hlog : Nat.log2 n = 63 - leadingZeros n := by
    rw [Nat.log2_eq_iff hpos.ne']
    refine ⟨hlow, ?_⟩
    have hnext : 63 - leadingZeros n + 1 = 64 - leadingZeros n := by omega
    rwa [hnext]
  have hshift : 63 - Nat.log2 n = leadingZeros n := by omega
  rw [acceptance, hshift, Nat.pow_eq]

lemma toNat_zone (hpos : 0 < n) (hn : n < 2 ^ 64) :
    (zone n).toNat = n * 2 ^ leadingZeros n - 1 := by
  obtain ⟨hlow, hhigh⟩ := shifted_bounds hpos hn
  rw [zone, BitVec.toNat_sub, BitVec.toNat_shiftLeft, BitVec.toNat_ofNat, Nat.mod_eq_of_lt hn,
    Nat.shiftLeft_eq, Nat.mod_eq_of_lt hhigh]
  have hone : (1 : BitVec 64).toNat = 1 := rfl
  omega

lemma counts_iff (hpos : 0 < n) (hn : n < 2 ^ 64) :
    Counts n w ↔ w.toNat * n % 2 ^ 64 < n * 2 ^ leadingZeros n := by
  obtain ⟨hlow, -⟩ := shifted_bounds hpos hn
  rw [Counts, BitVec.le_def, toNat_lowHalf hn, toNat_zone hpos hn]
  omega

/-- The index of a word is computed on words as it is in numbers. -/
theorem index?_eq_some_iff (hpos : 0 < n) (hn : n < 2 ^ 64) {i : Fin n} :
    index? n w = some i ↔ Picks n w i := by
  rw [Picks, counts_iff hpos hn, toNat_highHalf hn, ← acceptance_eq hpos hn]
  simp only [index?, Nat.pow_eq]
  by_cases hcounts : w.toNat * n % 2 ^ 64 < acceptance n
  · rw [dif_pos hcounts, Option.some.injEq, Fin.ext_iff]
    exact (and_iff_right hcounts).symm
  · rw [dif_neg hcounts]
    exact iff_of_false (fun h => nomatch h) fun h => hcounts h.1

lemma index?_eq_none_iff (hpos : 0 < n) (hn : n < 2 ^ 64) : index? n w = none ↔ ¬Counts n w := by
  rw [counts_iff hpos hn, ← acceptance_eq hpos hn]
  simp [index?]

/-- The words of an index follow one another, from the first multiple in its window on. -/
lemma picks_iff (hpos : 0 < n) (hn : n < 2 ^ 64) : Picks n w i ↔
    i * 2 ^ 64 ⌈/⌉ n ≤ w.toNat ∧ w.toNat < i * 2 ^ 64 ⌈/⌉ n + 2 ^ leadingZeros n := by
  obtain ⟨-, hwindow⟩ := shifted_bounds hpos hn
  have hfirst : i * 2 ^ 64 ⌈/⌉ n ≤ w.toNat ↔ i * 2 ^ 64 ≤ w.toNat * n := by
    rw [ceilDiv_le_iff_le_mul hpos, Nat.mul_comm n]
  have hlast : w.toNat < i * 2 ^ 64 ⌈/⌉ n + 2 ^ leadingZeros n ↔
      w.toNat * n < i * 2 ^ 64 + n * 2 ^ leadingZeros n := by
    rw [← not_iff_not, not_lt, not_lt]
    by_cases hbelow : w.toNat < 2 ^ leadingZeros n
    · have hproduct : w.toNat * n < n * 2 ^ leadingZeros n := by
        rw [Nat.mul_comm n]
        exact Nat.mul_lt_mul_of_pos_right hbelow hpos
      omega
    · obtain ⟨v, hv⟩ := Nat.exists_eq_add_of_le (not_lt.mp hbelow)
      have hceil : i * 2 ^ 64 ⌈/⌉ n ≤ v ↔ i * 2 ^ 64 ≤ n * v := ceilDiv_le_iff_le_mul hpos
      have hproduct : w.toNat * n = n * 2 ^ leadingZeros n + n * v := by rw [hv]; ring
      omega
  rw [Picks, counts_iff hpos hn, toNat_highHalf hn, hfirst, hlast]
  omega

/-- The windows lie in front of the end of all words. -/
lemma lt_of_window (hpos : 0 < n) (hn : n < 2 ^ 64) (hi : i < n) {v : ℕ}
    (hv : v < i * 2 ^ 64 ⌈/⌉ n + 2 ^ leadingZeros n) : v < 2 ^ 64 := by
  obtain ⟨-, hwindow⟩ := shifted_bounds hpos hn
  refine hv.trans_le (not_lt.mp fun hlong => ?_)
  have hscale : 2 ^ leadingZeros n ≤ 2 ^ 64 :=
    Nat.pow_le_pow_right two_pos (by have := (leadingZeros_bounds hpos hn).1; omega)
  obtain ⟨u, hu⟩ := Nat.exists_eq_add_of_le hscale
  have hbeyond : n * u < i * 2 ^ 64 := by
    by_contra hle
    have hceil := (ceilDiv_le_iff_le_mul hpos).mpr (not_lt.mp hle)
    omega
  have hwhole : n * 2 ^ 64 = n * 2 ^ leadingZeros n + n * u := by rw [hu]; ring
  have hnext : (i + 1) * 2 ^ 64 ≤ n * 2 ^ 64 := Nat.mul_le_mul_right _ hi
  omega

/-- Every index is picked by the same number of words. -/
theorem ncard_picks (hpos : 0 < n) (hn : n < 2 ^ 64) (hi : i < n) :
    {w : UInt64 | Picks n w i}.ncard = 2 ^ leadingZeros n := by
  have himage : UInt64.toNat '' {w | Picks n w i} =
      Finset.Ico (i * 2 ^ 64 ⌈/⌉ n) (i * 2 ^ 64 ⌈/⌉ n + 2 ^ leadingZeros n) := by
    ext v
    simp only [Set.mem_image, Set.mem_ofPred_eq, picks_iff hpos hn, Finset.coe_Ico, Set.mem_Ico]
    constructor
    · rintro ⟨w, hw, rfl⟩
      exact hw
    · intro hv
      have hval : (UInt64.ofNat v).toNat = v :=
        UInt64.toNat_ofNat_of_lt' (lt_of_window hpos hn hi hv.2)
      exact ⟨UInt64.ofNat v, by rwa [hval], hval⟩
  have hinj : Function.Injective UInt64.toNat := fun _ _ => UInt64.toNat_inj.mp
  rw [← Set.ncard_image_of_injective _ hinj, himage, Set.ncard_coe_finset, Nat.card_Ico,
    Nat.add_sub_cancel_left]

lemma highHalf_lt (hpos : 0 < n) (hn : n < 2 ^ 64) (w : UInt64) : (highHalf n w).toNat < n := by
  rw [toNat_highHalf hn]
  exact Nat.div_lt_of_lt_mul (Nat.mul_lt_mul_of_pos_right w.toNat_lt hpos)

/-- The words that count are those of the indices together. -/
lemma ncard_counts (hpos : 0 < n) (hn : n < 2 ^ 64) :
    {w : UInt64 | Counts n w}.ncard = n * 2 ^ leadingZeros n := by
  have hunion : {w : UInt64 | Counts n w} = ⋃ i : Fin n, {w | Picks n w i} := by
    ext w
    simp only [Set.mem_ofPred_eq, Set.mem_iUnion]
    constructor
    · intro hw
      exact ⟨⟨(highHalf n w).toNat, highHalf_lt hpos hn w⟩, hw, rfl⟩
    · rintro ⟨i, hw, -⟩
      exact hw
  have hdisjoint : Pairwise (Function.onFun Disjoint fun i : Fin n => {w | Picks n w i}) := by
    intro i j hij
    rw [Function.onFun, Set.disjoint_left]
    rintro w ⟨-, hi⟩ ⟨-, hj⟩
    exact hij (Fin.ext (hi.symm.trans hj))
  rw [hunion, Set.ncard_iUnion_of_finite (fun _ => Set.toFinite _) hdisjoint,
    finsum_eq_sum_of_fintype]
  simp [ncard_picks hpos hn]

/-- A destination comes from the first word that counts. -/
lemma picks_of_choose {addresses : List String} (hn : addresses.length < 2 ^ 64)
    {ceiling : Binary64} {index : ℕ} {s t : Keystream} {p : Payment}
    (h : choose addresses ceiling index s = .ok (p, t)) :
    ∃ ws w u, s.Yields (ws ++ [w]) u ∧ (∀ v ∈ ws, ¬Counts addresses.length v) ∧
      ∃ i : Fin addresses.length, Picks addresses.length w i ∧ p.address = addresses.get i := by
  unfold choose at h
  split at h
  · cases h
  rename_i ha
  split at h
  · cases h
  obtain ⟨rfl, -⟩ := Prod.mk.inj (Except.ok.inj h)
  unfold drawAddress at ha
  split at ha
  · rename_i i v hd
    have hpos : 0 < addresses.length := i.pos
    obtain ⟨haddress, rfl⟩ := Prod.mk.inj (Except.ok.inj ha)
    obtain ⟨ws, w, hws, hw, hrefused⟩ := words_of_draw hd
    refine ⟨ws, w, v, hws, fun x hx => (index?_eq_none_iff hpos hn).mp (hrefused x hx), i,
      (index?_eq_some_iff hpos hn).mp hw, haddress.symm⟩
  · cases ha

/-- No position of a list of addresses is more likely than another. -/
structure EvenChances (addresses : List String) : Prop where
  /-- The destination is the one that the first word that counts picks, a position of the list. -/
  chosen : ∀ ceiling index s p t, choose addresses ceiling index s = .ok (p, t) →
    ∃ ws w u, s.Yields (ws ++ [w]) u ∧ (∀ v ∈ ws, ¬Counts addresses.length v) ∧
      ∃ i : Fin addresses.length, Picks addresses.length w i ∧ p.address = addresses.get i
  /-- For each position, as many words pick it. -/
  equal : ∀ i < addresses.length,
    {w : UInt64 | Picks addresses.length w i}.ncard = 2 ^ leadingZeros addresses.length
  /-- Every word that counts picks a position, and these are at least half of all words. -/
  picked : ∀ w, Counts addresses.length w → ∃ i < addresses.length, Picks addresses.length w i
  half : 2 ^ 64 ≤ 2 * {w : UInt64 | Counts addresses.length w}.ncard
  /-- One word in reach that counts is all that it takes. -/
  returns : ∀ s ws w t, s.Yields (ws ++ [w]) t → ws.length < Keystream.period →
    Counts addresses.length w → ∃ r, drawAddress addresses s = .ok r

theorem chances_even {addresses : List String} (hne : addresses ≠ [])
    (hlength : addresses.length < 2 ^ 63) : EvenChances addresses := by
  have hpos : 0 < addresses.length := List.length_pos_iff.mpr hne
  have hn : addresses.length < 2 ^ 64 := hlength.trans (by decide)
  refine ⟨fun _ _ _ _ _ h => picks_of_choose hn h, fun i hi => ncard_picks hpos hn hi, ?_, ?_, ?_⟩
  · intro w hw
    exact ⟨_, highHalf_lt hpos hn w, hw, rfl⟩
  · rw [ncard_counts hpos hn]
    have := (shifted_bounds hpos hn).1
    omega
  · intro s ws w t hws htries hw
    have haccept : index? addresses.length w ≠ none :=
      fun hnone => (index?_eq_none_iff hpos hn).mp hnone hw
    obtain ⟨⟨i, u⟩, hr⟩ := draw_returns hws htries haccept
    refine ⟨(addresses.get i, u), ?_⟩
    rw [drawAddress, hr]

/-- Each of three positions is picked by a quarter of all words, and none by the others. -/
theorem three_even : EvenChances ["a1", "a2", "a3"] ∧
    {w : UInt64 | Picks 3 w 2}.ncard = 2 ^ 62 ∧ ¬Counts 3 (-1) := by
  have heven : EvenChances ["a1", "a2", "a3"] := chances_even (by decide) (by decide)
  have hzeros : leadingZeros 3 = 62 := by decide
  refine ⟨heven, ?_, ?_⟩
  · have hcard := heven.equal 2 (by decide)
    rwa [List.length_cons, List.length_cons, List.length_singleton, hzeros] at hcard
  · rw [Counts]
    decide

end PaymentDrill.Payment
